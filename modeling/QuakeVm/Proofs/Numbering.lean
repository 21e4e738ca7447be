import QuakeVm.Builtin.Table
import QuakeVm.Bytes
import Mathlib.Data.List.Nodup

/-!
# The numbers of builtin functions

Documented numbers are taken as they are, and the others count down from the highest number. The two
grow towards each other, and they are compared only once, at the end.

* `foldlM_add_eq_ok` says when a list of entries is accepted one by one, and what it comes to: the
  numbers of `assign`.
* `mem_assign` says where the numbers of `assign` lie. The comparison at the end puts all documented
  numbers below all others, so that no number is given twice.
* `find?_of_mem` finds a builtin again by anything that no two builtins share.
-/

namespace QuakeVm.Catalog

/-- The number of entries without a documented number. -/
def undocumented (entries : List Entry) : Nat := entries.countP (·.documented = 0)

/-- Two entries share neither a name nor a documented number. -/
def Compatible (e e' : Entry) : Prop :=
  e.name ≠ e'.name ∧ (e'.documented ≠ 0 → e.documented ≠ e'.documented)

section Assigning

variable {next : Nat} {e : Entry}

theorem undocumented_cons (e : Entry) (entries : List Entry) :
    undocumented (e :: entries) = undocumented [e] + undocumented entries := by
  unfold undocumented
  rw [← List.countP_append, List.singleton_append]

theorem undocumented_of_zero (h : e.documented = 0) : undocumented [e] = 1 := by
  simp [undocumented, h]

theorem undocumented_of_ne_zero (h : e.documented ≠ 0) : undocumented [e] = 0 := by
  simp [undocumented, h]

theorem assign_of_zero (h : e.documented = 0) : assign next [e] = [⟨e, next⟩] := by
  simp [assign, h]

theorem assign_of_ne_zero (h : e.documented ≠ 0) : assign next [e] = [⟨e, e.documented⟩] := by
  simp [assign, h]

theorem assign_cons (next : Nat) (e : Entry) (entries : List Entry) :
    assign next (e :: entries) = assign next [e] ++ assign (next - undocumented [e]) entries := by
  by_cases h : e.documented = 0
  · rw [assign_of_zero h, undocumented_of_zero h]
    simp [assign, h]
  · rw [assign_of_ne_zero h, undocumented_of_ne_zero h]
    simp [assign, h]

theorem map_entry_assign (next : Nat) (entries : List Entry) :
    (assign next entries).map (·.entry) = entries := by
  induction entries generalizing next with
  | nil => rfl
  | cons e entries ih =>
    rw [assign]
    split <;> rw [List.map_cons, ih]

theorem map_assign {α : Type} (f : Entry → α) (next : Nat) (entries : List Entry) :
    (assign next entries).map (fun b => f b.entry) = entries.map f := by
  calc (assign next entries).map (fun b => f b.entry)
      = ((assign next entries).map (·.entry)).map f := List.map_map.symm
    _ = entries.map f := by rw [map_entry_assign]

theorem entry_mem_of_mem_assign {entries : List Entry} {b : Builtin} (hb : b ∈ assign next entries) :
    b.entry ∈ entries := by
  rw [← map_entry_assign next entries]
  exact List.mem_map_of_mem hb

end Assigning

/-! ## Accepting entries -/

section Accepting

variable {d d' : Draft} {e : Entry} {entries : List Entry}

/-- When one entry is accepted, and what becomes of it. -/
theorem add_eq_ok : d.add e = .ok d' ↔ (∀ x ∈ d.builtins.map (·.entry), Compatible x e) ∧
    undocumented [e] ≤ d.next ∧
    d' = ⟨d.builtins ++ assign d.next [e], d.next - undocumented [e]⟩ := by
  rw [List.forall_mem_map]
  unfold Draft.add
  by_cases hname : d.builtins.any (·.entry.name == e.name) = true
  · rw [if_pos hname]
    obtain ⟨b, hb, heq⟩ := List.any_eq_true.mp hname
    refine ⟨nofun, ?_⟩
    rintro ⟨hcompatible, -⟩
    exact absurd (eq_of_beq heq) (hcompatible b hb).1
  have hfresh : ∀ b ∈ d.builtins, b.entry.name ≠ e.name := by simpa using hname
  rw [if_neg hname]
  by_cases hzero : e.documented = 0
  · have hcompatible : ∀ b ∈ d.builtins, Compatible b.entry e :=
      fun b hb => ⟨hfresh b hb, fun h => absurd hzero h⟩
    rw [if_neg (by simpa using hzero), undocumented_of_zero hzero, assign_of_zero hzero]
    by_cases hnext : d.next = 0
    · rw [if_pos (beq_iff_eq.mpr hnext), hnext]
      simp
    · rw [if_neg (by simpa using hnext)]
      have hpos : 1 ≤ d.next := Nat.one_le_iff_ne_zero.mpr hnext
      exact ⟨fun h => ⟨hcompatible, hpos, (Except.ok.inj h).symm⟩, fun h => congrArg _ h.2.2.symm⟩
  · rw [if_pos (by simpa using hzero), undocumented_of_ne_zero hzero, assign_of_ne_zero hzero]
    by_cases hnumber : d.builtins.any (·.entry.documented == e.documented) = true
    · rw [if_pos hnumber]
      obtain ⟨b, hb, heq⟩ := List.any_eq_true.mp hnumber
      refine ⟨nofun, ?_⟩
      rintro ⟨hcompatible, -⟩
      exact absurd (eq_of_beq heq) ((hcompatible b hb).2 hzero)
    · rw [if_neg hnumber]
      have hother : ∀ b ∈ d.builtins, b.entry.documented ≠ e.documented := by simpa using hnumber
      have hcompatible : ∀ b ∈ d.builtins, Compatible b.entry e :=
        fun b hb => ⟨hfresh b hb, fun _ => hother b hb⟩
      exact ⟨fun h => ⟨hcompatible, Nat.zero_le _, (Except.ok.inj h).symm⟩,
        fun h => congrArg _ h.2.2.symm⟩

/-- **When a list of entries is accepted one by one, and what becomes of it.** -/
theorem foldlM_add_eq_ok : entries.foldlM Draft.add d = .ok d' ↔
    (∀ x ∈ d.builtins.map (·.entry), ∀ e ∈ entries, Compatible x e) ∧ entries.Pairwise Compatible ∧
    undocumented entries ≤ d.next ∧
    d' = ⟨d.builtins ++ assign d.next entries, d.next - undocumented entries⟩ := by
  induction entries generalizing d with
  | nil =>
    rw [List.foldlM_nil, assign, List.append_nil]
    constructor
    · intro h
      cases h
      exact ⟨fun x _ => List.forall_mem_nil _, .nil, Nat.zero_le _, rfl⟩
    · rintro ⟨-, -, -, rfl⟩
      rfl
  | cons e entries ih =>
    have hbind : (e :: entries).foldlM Draft.add d = .ok d' ↔
        ∃ c, d.add e = .ok c ∧ entries.foldlM Draft.add c = .ok d' := by
      rw [List.foldlM_cons]
      cases d.add e <;> simp [bind, Except.bind]
    rw [hbind, List.pairwise_cons, undocumented_cons, assign_cons]
    simp only [add_eq_ok, ih]
    constructor
    · rintro ⟨c, ⟨hold, hnext, rfl⟩, hnew, hpairwise, hrest, rfl⟩
      simp only [List.map_append, map_entry_assign, List.mem_append, List.mem_singleton] at hnew
      refine ⟨fun x hx e' he' => ?_, ⟨fun e' he' => hnew e (.inr rfl) e' he', hpairwise⟩, ?_, ?_⟩
      · rcases List.mem_cons.mp he' with rfl | he'
        · exact hold x hx
        · exact hnew x (.inl hx) e' he'
      · exact Nat.add_le_of_le_sub' hnext hrest
      · rw [List.append_assoc, Nat.sub_sub]
    · rintro ⟨hold, ⟨hnew, hpairwise⟩, hnext, rfl⟩
      refine ⟨_, ⟨fun x hx => hold x hx e List.mem_cons_self, by omega, rfl⟩, ?_, hpairwise,
        Nat.le_sub_of_add_le' hnext, ?_⟩
      · simp only [List.map_append, map_entry_assign, List.mem_append, List.mem_singleton]
        rintro x (hx | rfl) e' he'
        · exact hold x hx e' (List.mem_cons_of_mem _ he')
        · exact hnew e' he'
      · rw [List.append_assoc, Nat.sub_sub]

end Accepting

/-! ## The catalogue -/

section Catalogue

variable {next : Nat} {entries : List Entry} {c : Catalog}

theorem foldl_max_le {l : List Nat} {m n : Nat} :
    l.foldl Nat.max m ≤ n ↔ m ≤ n ∧ ∀ k ∈ l, k ≤ n := by
  induction l generalizing m with
  | nil => simp
  | cons k l ih =>
    rw [List.foldl_cons, ih, List.forall_mem_cons, ← and_assoc]
    exact and_congr_left' Nat.max_le

theorem highestDocumented_le {n : Nat} : Draft.highestDocumented ⟨assign next entries, n⟩ ≤ n ↔
    ∀ e ∈ entries, e.documented ≤ n := by
  rw [Draft.highestDocumented, map_assign, foldl_max_le, List.forall_mem_map]
  exact and_iff_right (Nat.zero_le n)

/-- When a list of entries makes a catalogue, and which one. -/
theorem ofEntries_eq_ok : ofEntries entries = .ok c ↔ entries.Pairwise Compatible ∧
    undocumented entries ≤ highest ∧
    (∀ e ∈ entries, e.documented ≤ highest - undocumented entries) ∧
    c = ⟨assign highest entries⟩ := by
  have hfold (d : Draft) : entries.foldlM Draft.add {} = .ok d ↔ entries.Pairwise Compatible ∧
      undocumented entries ≤ highest ∧
      d = ⟨assign highest entries, highest - undocumented entries⟩ :=
    foldlM_add_eq_ok.trans (and_iff_right (List.forall_mem_nil _))
  unfold ofEntries
  cases hadd : entries.foldlM Draft.add {} with
  | error e =>
    refine ⟨nofun, ?_⟩
    rintro ⟨hpairwise, hcount, -⟩
    have hok := (hfold _).mpr ⟨hpairwise, hcount, rfl⟩
    rw [hadd] at hok
    cases hok
  | ok d =>
    obtain ⟨hpairwise, hcount, rfl⟩ := (hfold d).mp hadd
    dsimp only
    by_cases hbelow : ∀ e ∈ entries, e.documented ≤ highest - undocumented entries
    · rw [if_pos (highestDocumented_le.mpr hbelow)]
      exact ⟨fun h => ⟨hpairwise, hcount, hbelow, (Except.ok.inj h).symm⟩,
        fun h => congrArg _ h.2.2.2.symm⟩
    · rw [if_neg (mt highestDocumented_le.mp hbelow)]
      exact ⟨nofun, fun h => absurd h.2.2.1 hbelow⟩

/-- Where the numbers lie: those that are not documented are the highest. -/
theorem mem_assign (h : undocumented entries ≤ next) {b : Builtin} (hb : b ∈ assign next entries) :
    b.entry.documented ≠ 0 ∧ b.number = b.entry.documented ∨
      b.entry.documented = 0 ∧ next - undocumented entries < b.number ∧ b.number ≤ next := by
  induction entries generalizing next with
  | nil => cases hb
  | cons e entries ih =>
    rw [undocumented_cons] at h ⊢
    rw [assign_cons] at hb
    rcases List.mem_append.mp hb with hb | hb
    · by_cases hzero : e.documented = 0
      · rw [assign_of_zero hzero] at hb
        rw [undocumented_of_zero hzero] at h ⊢
        obtain rfl := List.mem_singleton.mp hb
        exact .inr ⟨hzero, by dsimp only; omega, Nat.le_refl next⟩
      · rw [assign_of_ne_zero hzero] at hb
        obtain rfl := List.mem_singleton.mp hb
        exact .inl ⟨hzero, rfl⟩
    · rcases ih (Nat.le_sub_of_add_le' h) hb with hdocumented | ⟨hzero, hlow, hhigh⟩
      · exact .inl hdocumented
      · exact .inr ⟨hzero, by omega, by omega⟩

/-- No number is given twice, if the documented ones are below those that are not documented. -/
theorem nodup_assign (hpairwise : entries.Pairwise Compatible) (h : undocumented entries ≤ next)
    (hbelow : ∀ e ∈ entries, e.documented ≤ next - undocumented entries) :
    ((assign next entries).map (·.number)).Nodup := by
  induction entries generalizing next with
  | nil => exact List.nodup_nil
  | cons e entries ih =>
    obtain ⟨hcompatible, hpairwise⟩ := List.pairwise_cons.mp hpairwise
    rw [undocumented_cons] at h hbelow
    have hbelow' : ∀ e' ∈ entries, e'.documented ≤ next - undocumented [e] - undocumented entries := by
      intro e' he'
      rw [Nat.sub_sub]
      exact hbelow e' (List.mem_cons_of_mem e he')
    have hrest := ih hpairwise (Nat.le_sub_of_add_le' h) hbelow'
    have hlies {b : Builtin} := mem_assign (b := b) (Nat.le_sub_of_add_le' h)
    rw [assign_cons, List.map_append]
    by_cases hzero : e.documented = 0
    · rw [undocumented_of_zero hzero] at h hrest hlies hbelow' ⊢
      rw [assign_of_zero hzero]
      refine List.nodup_cons.mpr ⟨fun hmem => ?_, hrest⟩
      obtain ⟨b, hb, (heq : b.number = next)⟩ := List.mem_map.mp hmem
      -- The numbers that follow are below this one, whichever way they are given.
      rcases hlies hb with ⟨-, hnumber⟩ | ⟨-, -, hle⟩
      · have hle := hbelow' b.entry (entry_mem_of_mem_assign hb)
        omega
      · omega
    · rw [undocumented_of_ne_zero hzero] at hrest hlies hbelow ⊢
      rw [assign_of_ne_zero hzero]
      refine List.nodup_cons.mpr ⟨fun hmem => ?_, hrest⟩
      obtain ⟨b, hb, (heq : b.number = e.documented)⟩ := List.mem_map.mp hmem
      rcases hlies hb with ⟨hdocumented, hnumber⟩ | ⟨-, hlt, -⟩
      · have hne := (hcompatible b.entry (entry_mem_of_mem_assign hb)).2 hdocumented
        exact hne (heq.symm.trans hnumber)
      · have hle := hbelow e List.mem_cons_self
        omega

/-- What has a key of its own is found by it. -/
theorem find?_of_mem {α β : Type} [BEq β] [LawfulBEq β] {f : α → β} {l : List α}
    (hl : (l.map f).Nodup) {a : α} (ha : a ∈ l) : l.find? (f · == f a) = some a := by
  induction l with
  | nil => cases ha
  | cons x l ih =>
    rw [List.map_cons, List.nodup_cons] at hl
    rcases List.mem_cons.mp ha with rfl | ha
    · exact List.find?_cons_of_pos (by exact beq_self_eq_true (f _))
    · have hne : f x ≠ f a := fun heq => hl.1 (heq ▸ List.mem_map_of_mem ha)
      rw [List.find?_cons_of_neg (by simpa using hne), ih hl.2 ha]

end Catalogue

/-- The builtins of a catalogue are the entries, and their numbers and names tell them apart. -/
structure Numbered (entries : List Entry) (c : Catalog) : Prop where
  entries_eq : c.builtins.map (·.entry) = entries
  distinct : (c.builtins.map (·.number)).Nodup
  within : ∀ b ∈ c.builtins, 1 ≤ b.number ∧ b.number ≤ 1023
  documented : ∀ b ∈ c.builtins, b.entry.documented ≠ 0 → b.number = b.entry.documented
  lookup : ∀ b ∈ c.builtins, c.lookup? b.number = some b
  lookup_other : ∀ n, (∀ b ∈ c.builtins, b.number ≠ n) → c.lookup? n = none
  find : ∀ b ∈ c.builtins, c.find? b.entry.name = some b
  find_other : ∀ name, (∀ b ∈ c.builtins, b.entry.name ≠ name) → c.find? name = none

theorem numbered_of_ofEntries {entries : List Entry} {c : Catalog} (h : ofEntries entries = .ok c) :
    Numbered entries c := by
  obtain ⟨hpairwise, hcount, hbelow, rfl⟩ := ofEntries_eq_ok.mp h
  have hnumbers := nodup_assign hpairwise hcount hbelow
  have hnames : ((assign highest entries).map (·.entry.name)).Nodup := by
    rw [map_assign, List.Nodup, List.pairwise_map]
    exact hpairwise.imp fun hcompatible => hcompatible.1
  constructor
  case entries_eq => exact map_entry_assign highest entries
  case distinct => exact hnumbers
  case within =>
    intro b hb
    rcases mem_assign hcount hb with ⟨hne, hnumber⟩ | ⟨-, hlt, hle⟩
    · have hle := hbelow b.entry (entry_mem_of_mem_assign hb)
      have hhighest : highest = 1023 := rfl
      omega
    · have hhighest : highest = 1023 := rfl
      omega
  case documented =>
    intro b hb hne
    rcases mem_assign hcount hb with ⟨-, hnumber⟩ | ⟨hzero, -⟩
    · exact hnumber
    · exact absurd hzero hne
  case lookup => exact fun b hb => find?_of_mem hnumbers hb
  case lookup_other =>
    intro n hn
    exact List.find?_eq_none.mpr fun b hb heq => hn b hb (eq_of_beq heq)
  case find => exact fun b hb => find?_of_mem hnames hb
  case find_other =>
    intro name hname
    exact List.find?_eq_none.mpr fun b hb heq => hname b hb (eq_of_beq heq)

/-- **The numbering of builtins is a bijection.** If fewer than 1024 entries are accepted, each of them
has a number of its own between 1 and 1023, the documented one if there is one, and number and name lead
back to it and nothing else leads anywhere. They are refused exactly if two of them share a name or a
documented number, or if a documented number is as high as those that the others are given. -/
theorem numbering_bijective {entries : List Entry} (h : entries.length < 1024) :
    (∀ c, ofEntries entries = .ok c → Numbered entries c) ∧
      ((∃ refusal, ofEntries entries = .error refusal) ↔
        ¬ entries.Pairwise (fun e e' => e.name ≠ e'.name) ∨
        ¬ entries.Pairwise (fun e e' => e'.documented ≠ 0 → e.documented ≠ e'.documented) ∨
        ∃ e ∈ entries, e.documented ≠ 0 ∧
          1024 - entries.countP (·.documented = 0) ≤ e.documented) := by
  refine ⟨fun c hc => numbered_of_ofEntries hc, ?_⟩
  have hcount : undocumented entries ≤ highest :=
    Nat.le_trans List.countP_le_length (Nat.le_of_lt_succ h)
  have hrefused : (∃ refusal, ofEntries entries = .error refusal) ↔
      ¬ ∃ c, ofEntries entries = .ok c := by
    cases ofEntries entries <;> simp
  have hbelow : (∀ e ∈ entries, e.documented ≤ highest - undocumented entries) ↔
      ¬ ∃ e ∈ entries, e.documented ≠ 0 ∧ 1024 - undocumented entries ≤ e.documented := by
    simp only [show highest = 1023 from rfl] at hcount ⊢
    push Not
    exact forall₂_congr fun e _ => by omega
  have haccepted : (∃ c, ofEntries entries = .ok c) ↔
      entries.Pairwise Compatible ∧
        ∀ e ∈ entries, e.documented ≤ highest - undocumented entries := by
    constructor
    · rintro ⟨c, hc⟩
      obtain ⟨hpairwise, -, hbelow, -⟩ := ofEntries_eq_ok.mp hc
      exact ⟨hpairwise, hbelow⟩
    · rintro ⟨hpairwise, hbelow⟩
      exact ⟨_, ofEntries_eq_ok.mpr ⟨hpairwise, hcount, hbelow, rfl⟩⟩
  have hpairwise : entries.Pairwise Compatible ↔
      entries.Pairwise (fun e e' => e.name ≠ e'.name) ∧
        entries.Pairwise (fun e e' => e'.documented ≠ 0 → e.documented ≠ e'.documented) :=
    List.pairwise_and_iff
  rw [hrefused, haccepted, hbelow, hpairwise, not_and_or, not_and_or, not_not, or_assoc]
  rfl

/-- The builtin functions make a catalogue. -/
theorem ofEntries_builtinEntries : ofEntries builtinEntries = .ok catalog := by
  -- Numbers are compared sooner than texts.
  have hnames : ((builtinEntries.map (·.name)).map fun s =>
      (Bytes.ofText s).foldl (fun n c => n * 256 + c.toNat) 0).Nodup := by decide +kernel
  have hnumbers : builtinEntries.Pairwise fun e e' =>
      e'.documented ≠ 0 → e.documented ≠ e'.documented := by decide +kernel
  refine ofEntries_eq_ok.mpr ⟨?_, by decide +kernel, by decide +kernel, rfl⟩
  exact List.pairwise_and_iff.mpr ⟨List.pairwise_map.mp hnames.of_map, hnumbers⟩

/-- The builtin functions themselves. -/
theorem numbering_bijective_builtins : builtinEntries.length < 1024 ∧
    ofEntries builtinEntries = .ok catalog ∧ Numbered builtinEntries catalog := by
  have hlength : builtinEntries.length < 1024 := by decide
  exact ⟨hlength, ofEntries_builtinEntries,
    (numbering_bijective hlength).1 catalog ofEntries_builtinEntries⟩

end QuakeVm.Catalog
