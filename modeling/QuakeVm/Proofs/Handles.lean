import QuakeVm.Proofs.Action

/-!
# Handles keep their texts

A handle names an entry of the string table, and entries are used again: a temporary string goes to
the place of the one sixteen before it, and a lasting string may go to the place of a zoned string
that was released. `Grant` is a string that some operation of a history has stored, and `Grant.Live`
says that its life has not ended since. As long as it lives, its handle reads its text, and no other
live string has the same handle.

## How the life of an entry ends

`known_apply` says of one entry and one operation that the entry stays as it is unless it is replaced
as the next temporary string or released as a zoned one. Whole histories follow by induction
(`known_foldl`). A new lasting string goes to a place that is free, and the places of live strings
are not free, so the handles differ.

The parts of a table that say the same in different ways, such as the entries and the count of zoned
strings, agree after every history (`Consistent`).
-/

namespace QuakeVm

namespace StringTable

/-! ## Reading entries through their handles -/

theorem handle_injective {i j : Nat} (h : handle i = handle j) : i = j := by
  unfold handle at h
  omega

theorem get_handle {t : StringTable} {i : Nat} {e : Known} (h : t.known[i]? = some e) :
    t.get (handle i) = e.text := by
  have htext : t.entryText i = e.text := by
    unfold entryText
    rw [Array.getD_eq_getD_getElem?, h]
    rfl
  unfold get
  rw [decode_handle, h]
  cases e with
  | free => rfl
  | _ => exact htext

theorem isValid_handle_of_free {t : StringTable} {i : Nat} (h : t.known[i]? = some .free) :
    t.isValid (handle i) = false := by
  unfold isValid
  rw [decode_handle, h]

/-- A positive handle reads the constant string at its offset. -/
theorem get_of_pos (t : StringTable) {h : Int} (hpos : 0 < h) :
    t.get h = Bytes.untilNul (t.constants.drop h.toNat) := by
  have hnull : ¬ (h == 0) = true := by
    simp only [beq_iff_eq]
    omega
  unfold get decode
  rw [if_neg hnull, if_pos hpos]

/-! ## Operations on one entry -/

/-- Whether an operation stores a temporary string. -/
def Operation.isTemp : Operation → Bool
  | .temp _ => true
  | _ => false

/-- An operation ends the life of the zoned string of a handle: it releases that string, or all of
them. -/
def Releases (t : StringTable) (h : Int) : Operation → Prop
  | .unzone h' => h' = h ∧ (t.unzone? h).isSome
  | .unzoneAll => True
  | _ => False

/-- An operation does not end the life of an entry. -/
def Spares (t : StringTable) (i : Nat) (op : Operation) : Known → Prop
  | .temp _ => op.isTemp = true → i ≠ t.nextTemp
  | .zoned _ => ¬ t.Releases (handle i) op
  | .engine _ => True
  | .free => False

/-- A new entry takes no place that is in use. -/
theorem Stored.known_eq {t t' : StringTable} {i j : Nat} {e e' : Known} (hs : Stored t t' i e)
    (h : t.known[j]? = some e') (hne : e' ≠ .free) : t'.known[j]? = some e' := by
  rw [hs.known, if_neg, h]
  rintro rfl
  rcases hs.fresh with hf | hf <;> rw [h] at hf
  · exact hne (Option.some.inj hf)
  · cases hf

/-- Releasing the zoned entries below `n` makes those free and touches no others. -/
theorem known_unzoneBelow : ∀ (n : Nat) {t : StringTable}, t.Consistent → ∀ i : Nat,
    (t.unzoneBelow n).2.known[i]? =
      if i < n ∧ t.isZoned i = true then some .free else t.known[i]?
  | 0, _, _, i => by rw [if_neg (fun h => Nat.not_lt_zero i h.1)]; rfl
  | n + 1, t, hc, i => by
    rw [unzoneBelow]
    by_cases hz : t.isZoned n = true
    · obtain ⟨s, hs⟩ := (hc.zone_iff n).mp hz
      have hu : t.unzone? (handle n) = some (t.release n) :=
        (unzone?_eq_some_iff hc).mpr ⟨n, s, rfl, hs, rfl⟩
      simp only [hz, if_true, hu, Option.getD_some]
      rw [known_unzoneBelow n (consistent_release hc hs), known_release hs, isZoned_release]
      by_cases hi : i = n
      · subst hi
        simp [hz]
      · have hle : i < n ↔ i < n + 1 := by omega
        simp [hi, hle]
    · rw [if_neg hz, known_unzoneBelow n hc]
      by_cases hi : i = n
      · subst hi
        simp [hz]
      · have hle : i < n ↔ i < n + 1 := by omega
        simp [hle]

theorem known_unzoneAll {t : StringTable} (hc : t.Consistent) (i : Nat) :
    t.unzoneAll.2.known[i]? = if t.isZoned i = true then some .free else t.known[i]? := by
  have h := known_unzoneBelow t.zone.size hc i
  rw [show (t.unzoneBelow t.zone.size).2 = t.unzoneAll.2 from rfl] at h
  rw [h]
  by_cases hz : t.isZoned i = true
  · simp [hz, lt_size_of_isZoned hz]
  · simp [hz]

/-- **An entry stays as it is under every operation that spares it.** -/
theorem known_apply {t : StringTable} (hc : t.Consistent) {i : Nat} {e : Known}
    (h : t.known[i]? = some e) {op : Operation} (hs : t.Spares i op e) :
    (t.apply op).known[i]? = some e := by
  have hne : e ≠ .free := by
    rintro rfl
    exact hs
  cases op with
  | temp s =>
    show (t.temp s).2.known[i]? = _
    rw [known_temp hc, if_neg, h]
    -- The place of the next temporary string holds a temporary string, and none that is spared.
    rintro rfl
    obtain ⟨old, hold⟩ := (hc.temp_iff t.nextTemp).mpr hc.nextTemp_lt
    rw [hold] at h
    cases h
    exact hs rfl rfl
  | engine s =>
    show (t.engine s).2.known[i]? = _
    cases hl : t.shared.lookup (Bytes.untilNul s) with
    | some j => rw [engine_of_shared hl]; exact h
    | none => rw [engine_of_new hl]; exact (allocate_stored hc _).known_eq h hne
  | zoned parts => exact (allocate_stored hc _).known_eq h hne
  | unzone h' =>
    show ((t.unzone? h').getD t).known[i]? = _
    cases hu : t.unzone? h' with
    | none => exact h
    | some t' =>
      obtain ⟨j, s, rfl, hj, rfl⟩ := (unzone?_eq_some_iff hc).mp hu
      show (t.release j).known[i]? = _
      rw [known_release hj, if_neg, h]
      rintro rfl
      rw [hj] at h
      cases h
      exact hs ⟨rfl, by rw [hu]; rfl⟩
  | unzoneAll =>
    show t.unzoneAll.2.known[i]? = _
    rw [known_unzoneAll hc, if_neg, h]
    intro hz
    obtain ⟨s, hi⟩ := (hc.zone_iff i).mp hz
    rw [hi] at h
    cases h
    exact hs trivial

/-- A zoned entry that an operation releases is free afterwards. -/
theorem known_of_releases {t : StringTable} (hc : t.Consistent) {i : Nat} {s : Bytes}
    (hi : t.known[i]? = some (.zoned s)) {op : Operation} (h : t.Releases (handle i) op) :
    (t.apply op).known[i]? = some .free := by
  cases op with
  | unzone h' =>
    obtain ⟨rfl, -⟩ := h
    have hu : t.unzone? (handle i) = some (t.release i) :=
      (unzone?_eq_some_iff hc).mpr ⟨i, s, rfl, hi, rfl⟩
    show ((t.unzone? (handle i)).getD t).known[i]? = _
    rw [hu]
    exact (known_release hi i).trans (if_pos rfl)
  | unzoneAll =>
    show t.unzoneAll.2.known[i]? = _
    rw [known_unzoneAll hc, if_pos ((hc.zone_iff i).mpr ⟨s, hi⟩)]
  | _ => exact h.elim

/-- An entry stays as it is in every history that spares it at every step. -/
theorem known_foldl {i : Nat} {e : Known} : ∀ (ops : List Operation) {t : StringTable},
    t.Consistent → t.known[i]? = some e →
    (∀ (p : List Operation) (op : Operation) (q : List Operation), ops = p ++ op :: q →
      (p.foldl apply t).Spares i op e) →
    (ops.foldl apply t).known[i]? = some e
  | [], _, _, h, _ => h
  | op :: rest, t, hc, h, hs => by
    have hone : (t.apply op).known[i]? = some e := known_apply hc h (hs [] op rest rfl)
    refine known_foldl rest (consistent_apply hc op) hone ?_
    rintro p op' q rfl
    exact hs (op :: p) op' q rfl

/-! ## Storing a string -/

/-- What stores a string. -/
inductive Storing where
  | temp (s : Bytes)
  | engine (s : Bytes)
  | zoned (parts : List Bytes)
  deriving Repr, DecidableEq

namespace Storing

/-- The operation that stores the string. -/
def op : Storing → Operation
  | .temp s => .temp s
  | .engine s => .engine s
  | .zoned parts => .zoned parts

/-- The text that the string has as long as it lives. -/
def text : Storing → Bytes
  | .temp s => (Bytes.untilNul s).take 1023
  | .engine s => Bytes.untilNul s
  | .zoned parts => parts.flatMap Bytes.untilNul

/-- Whether the string lasts longer than temporary ones. -/
def lasts : Storing → Bool
  | .temp _ => false
  | _ => true

/-- The entry of the string. -/
def entry : Storing → Known
  | .temp s => .temp (fit s)
  | .engine s => .engine (Bytes.untilNul s)
  | .zoned parts => .zoned (parts.flatMap Bytes.untilNul)

theorem text_entry (x : Storing) : x.entry.text = x.text := by
  cases x <;> rfl

end Storing

/-- A string stored: its handle, and the table with it. -/
def store (t : StringTable) : Storing → Int × StringTable
  | .temp s => t.temp s
  | .engine s => t.engine s
  | .zoned parts => t.zoned parts

/-- A new string goes to some place. A temporary string goes to the next one, a zoned string to one that
is not in use. -/
theorem store_place {t : StringTable} (hc : t.Consistent) (x : Storing) :
    ∃ i, (t.store x).1 = handle i ∧ (t.apply x.op).known[i]? = some x.entry ∧
      (x.lasts = false → i = t.nextTemp) ∧
      (x.entry.isZoned = true → ∀ e, t.known[i]? = some e → e = .free) := by
  cases x with
  | temp s =>
    refine ⟨t.nextTemp, rfl, ?_, fun _ => rfl, nofun⟩
    show (t.temp s).2.known[_]? = _
    rw [known_temp hc, if_pos rfl]
    rfl
  | engine s =>
    cases hl : t.shared.lookup (Bytes.untilNul s) with
    | some i =>
      refine ⟨i, ?_, ?_, nofun, nofun⟩
      · show (t.engine s).1 = _
        rw [engine_of_shared hl]
      · show (t.engine s).2.known[_]? = _
        rw [engine_of_shared hl]
        exact (hc.shared_iff _ _).mp hl
    | none =>
      have hs := allocate_stored hc (.engine (Bytes.untilNul s))
      refine ⟨(t.allocate (.engine (Bytes.untilNul s))).1, ?_, ?_, nofun, nofun⟩
      · show (t.engine s).1 = _
        rw [engine_of_new hl]
      · show (t.engine s).2.known[_]? = _
        rw [engine_of_new hl]
        exact (hs.known _).trans (if_pos rfl)
  | zoned parts =>
    have hs := allocate_stored hc (.zoned (parts.flatMap Bytes.untilNul))
    refine ⟨(t.allocate (.zoned (parts.flatMap Bytes.untilNul))).1, rfl,
      (hs.known _).trans (if_pos rfl), nofun, ?_⟩
    intro _ e he
    rcases hs.fresh with hf | hf <;> rw [hf] at he <;> cases he
    rfl

/-! ## The ring of temporary strings -/

/-- The part of a table that releasing strings leaves alone: the constants, and the place of the next
temporary string. -/
def Fixed (t t' : StringTable) : Prop := t'.constants = t.constants ∧ t'.nextTemp = t.nextTemp

theorem fixed_allocate (t : StringTable) (e : Known) : Fixed t (t.allocate e).2 := by
  unfold allocate
  split <;> exact ⟨rfl, rfl⟩

theorem fixed_unzone? {t t' : StringTable} {h : Int} (hu : t.unzone? h = some t') : Fixed t t' := by
  unfold unzone? at hu
  split at hu
  · split at hu
    · cases hu
      exact ⟨rfl, rfl⟩
    · cases hu
  · cases hu

theorem fixed_getD_unzone? (t : StringTable) (h : Int) : Fixed t ((t.unzone? h).getD t) := by
  cases hu : t.unzone? h with
  | none => exact ⟨rfl, rfl⟩
  | some t' => exact fixed_unzone? hu

theorem fixed_unzoneBelow : ∀ (n : Nat) (t : StringTable), Fixed t (t.unzoneBelow n).2
  | 0, _ => ⟨rfl, rfl⟩
  | n + 1, t => by
    rw [unzoneBelow]
    split
    · have hone := fixed_getD_unzone? t (handle n)
      have hrest := fixed_unzoneBelow n ((t.unzone? (handle n)).getD t)
      exact ⟨hrest.1.trans hone.1, hrest.2.trans hone.2⟩
    · exact fixed_unzoneBelow n t

/-- The constants stay, and the ring turns by one place for each temporary string. -/
theorem ring_apply (t : StringTable) (op : Operation) :
    (t.apply op).constants = t.constants ∧
      (t.apply op).nextTemp =
        if op.isTemp then (t.nextTemp + 1) % Limits.tempStrings else t.nextTemp := by
  cases op with
  | temp s => exact ⟨rfl, rfl⟩
  | engine s =>
    show Fixed t (t.engine s).2
    cases hl : t.shared.lookup (Bytes.untilNul s) with
    | some i => rw [engine_of_shared hl]; exact ⟨rfl, rfl⟩
    | none => rw [engine_of_new hl]; exact fixed_allocate t _
  | zoned parts => exact fixed_allocate t _
  | unzone h => exact fixed_getD_unzone? t h
  | unzoneAll => exact fixed_unzoneBelow _ t

theorem ring_foldl : ∀ (ops : List Operation) (t : StringTable), t.nextTemp < Limits.tempStrings →
    (ops.foldl apply t).constants = t.constants ∧
      (ops.foldl apply t).nextTemp =
        (t.nextTemp + ops.countP Operation.isTemp) % Limits.tempStrings
  | [], t, hlt => ⟨rfl, (Nat.mod_eq_of_lt hlt).symm⟩
  | op :: rest, t, hlt => by
    obtain ⟨hconstants, hnext⟩ := ring_apply t op
    have hlt' : (t.apply op).nextTemp < Limits.tempStrings := by
      rw [hnext]
      split
      · exact Nat.mod_lt _ (by decide)
      · exact hlt
    obtain ⟨hconstants', hnext'⟩ := ring_foldl rest (t.apply op) hlt'
    refine ⟨hconstants'.trans hconstants, ?_⟩
    rw [List.foldl_cons, hnext', hnext, List.countP_cons]
    by_cases htemp : op.isTemp = true
    · rw [if_pos htemp, if_pos htemp, Nat.mod_add_mod]
      congr 1
      omega
    · rw [if_neg htemp, if_neg htemp, Nat.add_zero]

theorem constants_after (constants : Bytes) (ops : List Operation) :
    (after constants ops).constants = constants :=
  (ring_foldl ops _ (consistent_ofConstants constants).nextTemp_lt).1

theorem nextTemp_after (constants : Bytes) (ops : List Operation) :
    (after constants ops).nextTemp = ops.countP Operation.isTemp % Limits.tempStrings := by
  have h := (ring_foldl ops _ (consistent_ofConstants constants).nextTemp_lt).2
  rw [show (ofConstants constants).nextTemp = 0 from rfl, Nat.zero_add] at h
  exact h

/-! ## Strings of a history -/

/-- A string that a history has stored: what stored it, what was done before, and what has been done
since. -/
structure Grant (constants : Bytes) (ops : List Operation) where
  before : List Operation
  stored : Storing
  since : List Operation
  history : ops = before ++ stored.op :: since

namespace Grant

variable {constants : Bytes} {ops : List Operation}

/-- The handle that was given out. -/
def handle (g : Grant constants ops) : Int := ((after constants g.before).store g.stored).1

/-- The life of a string has not ended. That of an engine string never does, that of a zoned string
ends when it is released, and that of a temporary string with the sixteenth one that follows. -/
def Live (g : Grant constants ops) : Prop :=
  match g.stored with
  | .temp _ => g.since.countP Operation.isTemp < 16
  | .engine _ => True
  | .zoned _ => ∀ (p : List Operation) (op : Operation) (q : List Operation), g.since = p ++ op :: q →
    ¬ (after constants (g.before ++ g.stored.op :: p)).Releases g.handle op

theorem after_split (constants : Bytes) (before : List Operation) (op : Operation)
    (since : List Operation) :
    after constants (before ++ op :: since) =
      since.foldl apply ((after constants before).apply op) := by
  unfold after
  rw [List.foldl_append, List.foldl_cons]

/-- A live string has an entry with its text. A zoned string has taken a place that was not in use, a
temporary string the next one. -/
theorem exists_entry (g : Grant constants ops) (hlive : g.Live) :
    ∃ i, g.handle = StringTable.handle i ∧
      (after constants ops).known[i]? = some g.stored.entry ∧
      (g.stored.entry.isZoned = true →
        ∀ e, (after constants g.before).known[i]? = some e → e = .free) := by
  obtain ⟨before, stored, since, rfl⟩ := g
  have hc := consistent_after constants before
  obtain ⟨i, hhandle, hentry, hring, hfree⟩ := store_place hc stored
  refine ⟨i, hhandle, ?_, hfree⟩
  rw [after_split]
  refine known_foldl since (consistent_apply hc _) hentry ?_
  rintro p op q rfl
  rw [← after_split]
  cases stored with
  | engine s => trivial
  | zoned parts =>
    show ¬ _
    rw [← hhandle]
    exact hlive p op q rfl
  | temp s =>
    intro htemp hi
    -- Fewer than sixteen temporary strings have followed, so the ring has not come round.
    have hfew : (p ++ op :: q).countP Operation.isTemp < 16 := hlive
    have hplace : i = (after constants before).nextTemp := hring rfl
    rw [nextTemp_after] at hplace hi
    simp only [List.countP_append, List.countP_cons, htemp, if_true] at hfew
    simp only [Storing.op, List.countP_append, List.countP_cons, Operation.isTemp, if_true,
      Limits.tempStrings] at hplace hi
    omega

/-- Of two strings, the one stored later has a history with the other one in it. -/
theorem exists_earlier (g g' : Grant constants ops) (hlt : g.before.length < g'.before.length) :
    ∃ p, g'.before = g.before ++ g.stored.op :: p ∧ g.since = p ++ g'.stored.op :: g'.since := by
  have h := g.history.symm.trans g'.history
  rcases List.append_eq_append_iff.mp h with ⟨as, hbefore, hsince⟩ | ⟨bs, hbefore, -⟩
  · cases as with
    | nil =>
      rw [hbefore, List.append_nil] at hlt
      omega
    | cons op p =>
      rw [List.cons_append] at hsince
      obtain ⟨hop, hsince⟩ := List.cons.inj hsince
      exact ⟨p, hop ▸ hbefore, hsince⟩
  · rw [hbefore, List.length_append] at hlt
    omega

/-- A zoned string that is stored while another one lives gets a handle of its own. -/
theorem handle_ne_of_earlier {g g' : Grant constants ops} (hlive : g.Live) (hlive' : g'.Live)
    (hz : g.stored.entry.isZoned = true) (hz' : g'.stored.entry.isZoned = true)
    (hlt : g.before.length < g'.before.length) : g.handle ≠ g'.handle := by
  intro hsame
  obtain ⟨p, hbefore, hsince⟩ := g.exists_earlier g' hlt
  -- The earlier string, at the time when the later one was stored.
  let past : Grant constants g'.before := ⟨g.before, g.stored, p, hbefore⟩
  have hpast : past.Live := by
    unfold Live at hlive ⊢
    cases hstored : g.stored with
    | zoned parts =>
      simp only [past, hstored] at hlive ⊢
      intro p₁ op q hp
      have hnot := hlive p₁ op (q ++ g'.stored.op :: g'.since) (by rw [hsince, hp]; simp)
      simpa only [handle, hstored] using hnot
    | _ => rw [hstored] at hz; cases hz
  obtain ⟨i, hi, hentry, -⟩ := past.exists_entry hpast
  obtain ⟨j, hj, -, hfree⟩ := g'.exists_entry hlive'
  have hij : i = j := handle_injective (hi.symm.trans (hsame.trans hj))
  subst hij
  have hnone : g.stored.entry = .free := hfree hz' _ hentry
  rw [hnone] at hz
  cases hz

/-- **The handle of a live string reads its text.** -/
theorem get_of_live (g : Grant constants ops) (hlive : g.Live) :
    (after constants ops).get g.handle = g.stored.text := by
  obtain ⟨i, hi, hentry, -⟩ := g.exists_entry hlive
  rw [hi, get_handle hentry, Storing.text_entry]

/-- Live strings with the same handle have the same entry. -/
theorem entry_eq {g g' : Grant constants ops} (hlive : g.Live) (hlive' : g'.Live)
    (hsame : g.handle = g'.handle) : g.stored.entry = g'.stored.entry := by
  obtain ⟨i, hi, hentry, -⟩ := g.exists_entry hlive
  obtain ⟨j, hj, hentry', -⟩ := g'.exists_entry hlive'
  obtain rfl : i = j := handle_injective (hi.symm.trans (hsame.trans hj))
  exact Option.some.inj (hentry.symm.trans hentry')

theorem live_engine {g : Grant constants ops} {s : Bytes} (h : g.stored = .engine s) : g.Live := by
  unfold Live
  rw [h]
  trivial

theorem engine_handle_eq_iff {g g' : Grant constants ops} {s s' : Bytes}
    (hg : g.stored = .engine s) (hg' : g'.stored = .engine s') :
    g.handle = g'.handle ↔ Bytes.untilNul s = Bytes.untilNul s' := by
  constructor
  · intro hsame
    have hentry := entry_eq (live_engine hg) (live_engine hg') hsame
    rw [hg, hg'] at hentry
    exact Known.engine.inj hentry
  · intro htext
    obtain ⟨i, hi, hentry, -⟩ := g.exists_entry (live_engine hg)
    obtain ⟨j, hj, hentry', -⟩ := g'.exists_entry (live_engine hg')
    rw [hg] at hentry
    rw [hg'] at hentry'
    -- The index finds one place for the text.
    have hc := consistent_after constants ops
    have hfound := (hc.shared_iff _ _).mpr hentry
    have hfound' := (hc.shared_iff _ _).mpr hentry'
    rw [show Bytes.untilNul s = Bytes.untilNul s' from htext, hfound'] at hfound
    rw [hi, hj, Option.some.inj hfound]

/-- Two lasting strings that live at the same time share a handle only as engine strings. -/
theorem engine_of_handle_eq {g g' : Grant constants ops} (hlive : g.Live) (hlive' : g'.Live)
    (hlasts : g.stored.lasts = true) (hne : g.before.length ≠ g'.before.length)
    (hsame : g.handle = g'.handle) :
    ∃ s s', g.stored = .engine s ∧ g'.stored = .engine s' ∧
      Bytes.untilNul s = Bytes.untilNul s' := by
  have hentry := entry_eq hlive hlive' hsame
  cases hg : g.stored with
  | temp s => rw [hg] at hlasts; cases hlasts
  | engine s =>
    cases hg' : g'.stored with
    | engine s' => exact ⟨s, s', rfl, rfl, (engine_handle_eq_iff hg hg').mp hsame⟩
    | _ => rw [hg, hg'] at hentry; cases hentry
  | zoned parts =>
    -- The later one of two zoned strings cannot have taken the place of the earlier one.
    have hz : g.stored.entry.isZoned = true := by rw [hg]; rfl
    have hz' : g'.stored.entry.isZoned = true := hentry ▸ hz
    rcases Nat.lt_or_gt_of_ne hne with hlt | hlt
    · exact absurd hsame (handle_ne_of_earlier hlive hlive' hz hz' hlt)
    · exact absurd hsame.symm (handle_ne_of_earlier hlive' hlive hz' hz hlt)

/-- The handle of a lasting string is none of the first ones. -/
theorem handle_ne_slot {g : Grant constants ops} (hlive : g.Live) (hlasts : g.stored.lasts = true)
    {slot : Nat} (hslot : slot < Limits.tempStrings) : g.handle ≠ StringTable.handle slot := by
  intro hsame
  obtain ⟨i, hi, hentry, -⟩ := g.exists_entry hlive
  obtain rfl : i = slot := handle_injective (hi.symm.trans hsame)
  obtain ⟨s, hs⟩ := ((consistent_after constants ops).temp_iff i).mpr hslot
  rw [hs] at hentry
  cases hg : g.stored with
  | temp s => rw [hg] at hlasts; cases hlasts
  | _ => rw [hg] at hentry; cases hentry

/-- The place of a temporary string depends on the number of those before it only. -/
theorem handle_temp {g : Grant constants ops} {s : Bytes} (h : g.stored = .temp s) :
    g.handle = StringTable.handle (g.before.countP Operation.isTemp % Limits.tempStrings) := by
  unfold handle
  rw [h, ← nextTemp_after constants]
  rfl

/-- The sixteenth temporary string after another one takes its place. -/
theorem handle_next_temp {g : Grant constants ops} {s : Bytes} (hg : g.stored = .temp s)
    (hcount : g.since.countP Operation.isTemp = 15) (s' : Bytes) :
    ((after constants ops).temp s').1 = g.handle := by
  rw [handle_temp hg]
  show StringTable.handle (after constants ops).nextTemp = _
  have hall : ops.countP Operation.isTemp = g.before.countP Operation.isTemp + 16 := by
    have hop : g.stored.op.isTemp = true := by rw [hg]; rfl
    rw [congrArg (List.countP Operation.isTemp) g.history, List.countP_append, List.countP_cons, hop,
      if_pos rfl, hcount]
  rw [nextTemp_after, hall, show 16 = Limits.tempStrings from rfl, Nat.add_mod_right]

theorem isValid_of_released {g : Grant constants ops} {parts : List Bytes}
    (hg : g.stored = .zoned parts) (hlive : g.Live) {op : Operation}
    (hop : (after constants ops).Releases g.handle op) :
    (after constants (ops ++ [op])).isValid g.handle = false := by
  obtain ⟨i, hi, hentry, -⟩ := g.exists_entry hlive
  rw [hg] at hentry
  rw [hi] at hop ⊢
  rw [after_split]
  exact isValid_handle_of_free (known_of_releases (consistent_after constants ops) hentry hop)

theorem toInt_ofInt_handle {g : Grant constants ops} (hlive : g.Live)
    (hsize : (after constants ops).known.size < 0x7fffffff) :
    (Int32.ofInt g.handle).toInt = g.handle := by
  obtain ⟨i, hi, hentry, -⟩ := g.exists_entry hlive
  have hlt : i < (after constants ops).known.size := (Array.getElem?_eq_some_iff.mp hentry).1
  rw [hi, Int32.toInt_ofInt_of_le] <;> unfold StringTable.handle <;> omega

end Grant

/-- What the handles of a history do: they name their strings as long as those live, and nobody
else's. -/
structure KeepsTexts (constants : Bytes) (ops : List Operation) : Prop where
  /-- The handle of a live string reads its text. -/
  get_live : ∀ g : Grant constants ops, g.Live → (after constants ops).get g.handle = g.stored.text
  /-- Engine strings have the same handle if and only if they have the same text. -/
  engine_iff : ∀ (g g' : Grant constants ops) (s s' : Bytes), g.stored = .engine s →
    g'.stored = .engine s' → (g.handle = g'.handle ↔ Bytes.untilNul s = Bytes.untilNul s')
  /-- A positive handle reads the constant string at its offset. -/
  get_constant : ∀ h : Int, 0 < h →
    (after constants ops).get h = Bytes.untilNul (constants.drop h.toNat)
  /-- Two lasting strings that live at the same time have different handles, unless they are engine
  strings of the same text. -/
  handle_ne : ∀ g g' : Grant constants ops, g.Live → g'.Live → g.stored.lasts = true →
    g'.stored.lasts = true → g.before.length ≠ g'.before.length → g.handle = g'.handle →
    ∃ s s', g.stored = .engine s ∧ g'.stored = .engine s' ∧ Bytes.untilNul s = Bytes.untilNul s'
  /-- The handles of temporary strings are the first ones, and that of a lasting string is none of
  them. -/
  handle_temp : ∀ (g : Grant constants ops) (s : Bytes), g.stored = .temp s →
    ∃ slot < 16, g.handle = handle slot
  handle_ne_temp : ∀ g : Grant constants ops, g.Live → g.stored.lasts = true →
    ∀ slot < 16, g.handle ≠ handle slot
  /-- A zoned string that is released has no text any more. -/
  released : ∀ (g : Grant constants ops) (parts : List Bytes), g.stored = .zoned parts → g.Live →
    ∀ op, (after constants ops).Releases g.handle op →
      (after constants (ops ++ [op])).isValid g.handle = false
  /-- The sixteenth temporary string after another one takes its place. -/
  replaced : ∀ (g : Grant constants ops) (s : Bytes), g.stored = .temp s →
    g.since.countP Operation.isTemp = 15 → ∀ s', ((after constants ops).temp s').1 = g.handle
  /-- A handle fits into a word if there are not too many entries. -/
  fits : (after constants ops).known.size < 0x7fffffff →
    ∀ g : Grant constants ops, g.Live → (Int32.ofInt g.handle).toInt = g.handle

/-- **A handle reads the text it was given out for as long as the string lives, and no two live strings
share a handle**, whatever is done to the table. -/
theorem handles_keep_texts (constants : Bytes) (ops : List Operation) :
    KeepsTexts constants ops where
  get_live := Grant.get_of_live
  engine_iff _ _ _ _ hg hg' := Grant.engine_handle_eq_iff hg hg'
  get_constant h hpos := by rw [get_of_pos _ hpos, constants_after]
  handle_ne _ _ hlive hlive' hlasts _ hne hsame :=
    Grant.engine_of_handle_eq hlive hlive' hlasts hne hsame
  handle_temp _ _ hg := ⟨_, Nat.mod_lt _ (by decide), Grant.handle_temp hg⟩
  handle_ne_temp _ hlive hlasts _ hslot := Grant.handle_ne_slot hlive hlasts hslot
  released _ _ hg hlive _ hop := Grant.isValid_of_released hg hlive hop
  replaced _ _ hg hcount s' := Grant.handle_next_temp hg hcount s'
  fits hsize _ hlive := Grant.toInt_ofInt_handle hlive hsize

/-- A history in which an engine string takes the place of a zoned string that was released. -/
def reusing : List Operation :=
  [.zoned [[97]], .temp [120], .unzone (-17), .engine [101, 0, 5], .zoned [[98], [99, 0, 100]]]

theorem handles_keep_texts_reused :
    (after [0, 104, 105, 0] reusing).get (-17) = [101] ∧
      (after [0, 104, 105, 0] reusing).get (-18) = [98, 99] ∧
      (after [0, 104, 105, 0] reusing).get (-1) = [120] ∧
      (after [0, 104, 105, 0] reusing).get 1 = [104, 105] := by
  have h := handles_keep_texts [0, 104, 105, 0] reusing
  refine ⟨?_, ?_, ?_, h.get_constant 1 (by decide)⟩
  · exact h.get_live ⟨reusing.take 3, .engine [101, 0, 5], reusing.drop 4, rfl⟩ trivial
  · refine h.get_live ⟨reusing.take 4, .zoned [[98], [99, 0, 100]], [], rfl⟩ ?_
    intro p op q hnil
    simp at hnil
  · refine h.get_live ⟨reusing.take 1, .temp [120], reusing.drop 2, rfl⟩ ?_
    show (reusing.drop 2).countP Operation.isTemp < 16
    decide

/-! ## The parts of a table -/

/-- **The parts of a string table agree, whatever has been done to it.** So no two engine strings are
equal, releasing a string succeeds for the handles of the zoned strings and changes nothing for
others, and releasing all of them leaves none. -/
theorem parts_agree (constants : Bytes) (ops : List Operation) :
    (after constants ops).Consistent ∧
    (∀ (i j : Nat) (s : Bytes), (after constants ops).known[i]? = some (.engine s) →
      (after constants ops).known[j]? = some (.engine s) → i = j) ∧
    (after constants ops).zonedCount = (after constants ops).known.countP Known.isZoned ∧
    (∀ (a : Activation) (h : Int), a.machine.strings = after constants ops →
      ∃ released b, Action.unzone h a = .ok released b ∧
        (released = true ↔
          ∃ i s, h = handle i ∧ (after constants ops).known[i]? = some (.zoned s)) ∧
        (released = false → b.machine = a.machine)) ∧
    (after constants ops).unzoneAll.1 = (after constants ops).zonedCount ∧
      (after constants ops).unzoneAll.2.zonedCount = 0 := by
  have hc := consistent_after constants ops
  obtain ⟨-, hcount, hnone⟩ := unzoneAll_spec hc
  refine ⟨hc, ?_, zonedCount_eq hc, ?_, hcount, hnone⟩
  · intro i j s hi hj
    have hsame := ((hc.shared_iff s i).mpr hi).symm.trans ((hc.shared_iff s j).mpr hj)
    exact Option.some.inj hsame
  · intro a h ha
    rw [← ha] at hc ⊢
    exact Action.unzone_eq_ok hc h

/-- An engine string takes the place of a zoned string that has been released; another zoned string
stays. -/
theorem parts_agree_reused :
    let t := after [] [.zoned [[97]], .zoned [[98], [99, 0, 100]], .unzone (-17), .engine [101]]
    (∀ i : Nat, t.known[i]? = some (.engine [101]) → i = 16) ∧ t.unzoneAll.1 = 1 ∧
      ∃ b, Action.unzone (-18) ⟨machineOf t, .new "game" .empty⟩ = .ok true b := by
  intro t
  obtain ⟨-, hengine, -, hunzone, hall, -⟩ := parts_agree []
    [.zoned [[97]], .zoned [[98], [99, 0, 100]], .unzone (-17), .engine [101]]
  obtain ⟨released, b, hb, hreleased, -⟩ :=
    hunzone ⟨machineOf t, .new "game" .empty⟩ (-18) rfl
  obtain rfl : released = true := hreleased.mpr ⟨17, [98, 99], rfl, by decide⟩
  exact ⟨fun i hi => hengine i 16 [101] hi (by decide), hall.trans (by decide), b, hb⟩

end StringTable

end QuakeVm
