import QuakeVm.Builtin.Tokens

/-!
# Strings cut at separators

A string is cut into fields wherever one of some separators stands, and empty fields count. Separators
may overlap or be parts of each other. A field goes on until any of them fits, and of those that fit
there the first of the list is taken, even if another is longer (`Divides`).

These facts leave no choice. A field ends at the first place where it can (`Divides.stop_le`), and the
separator there tells where the next one begins, so that a string is cut in one way only
(`Divides.unique`). The fields with the separators between them are the string again
(`Divides.interleave_eq`).
-/

namespace QuakeVm

/-! ## Remembered tokens -/

/-- Tokens are remembered as far as they are kept. -/
theorem Builtins.exists_setTokens (ts : List Token) (a : Activation) :
    ∃ b, Builtins.setTokens ts a = .ok () b ∧ b.machine.tokens = Token.keep ts := by
  unfold Builtins.setTokens
  split <;> exact ⟨_, rfl, rfl⟩

/-- If fewer tokens are kept than could be, these are all of them. -/
theorem Token.keep_of_length_lt {ts : List Token} (h : (keep ts).length < Limits.tokens) :
    keep ts = ts := by
  unfold keep at h ⊢
  rw [List.length_take] at h
  exact List.take_of_length_le (by omega)

/-! ## Ranges -/

theorem Bytes.extract_length (s : Bytes) (start : Nat) : s.extract start s.length = s.drop start := by
  rw [List.extract_eq_take_drop, List.take_of_length_le (Nat.le_of_eq List.length_drop)]

theorem Bytes.length_extract {s : Bytes} {start stop : Nat} (h : stop ≤ s.length) :
    (s.extract start stop).length = stop - start := by
  rw [List.extract_eq_take_drop, List.length_take, List.length_drop]
  omega

theorem Bytes.extract_append_drop (s : Bytes) {start stop : Nat} (h : start ≤ stop) :
    s.extract start stop ++ s.drop stop = s.drop start := by
  have hdrop : s.drop stop = (s.drop start).drop (stop - start) := by
    rw [List.drop_drop, Nat.add_sub_cancel' h]
  rw [hdrop, List.extract_eq_take_drop, List.take_append_drop]

namespace Token

variable {seps matched : List Bytes} {s sep : Bytes} {pos : Nat} {t u : Token} {ts : List Token}

theorem eq_of_parts (htext : t.text = u.text) (hstart : t.start = u.start) (hstop : t.stop = u.stop) :
    t = u := by
  cases t
  cases u
  simp_all

/-! ## Separators -/

/-- The first separator of a list that stands at the front of a string. -/
def IsFirst (seps : List Bytes) (sep s : Bytes) : Prop :=
  ∃ earlier later, seps = earlier ++ sep :: later ∧ sep <+: s ∧ ∀ other ∈ earlier, ¬other <+: s

/-- No separator begins in a range of a string. -/
def Clear (seps : List Bytes) (s : Bytes) (start stop : Nat) : Prop :=
  ∀ p, start ≤ p → p < stop → ∀ sep ∈ seps, ¬sep <+: s.drop p

theorem separatorAt?_eq_some : separatorAt? seps s = some sep ↔ IsFirst seps sep s := by
  unfold separatorAt? IsFirst
  rw [List.find?_eq_some_iff_append]
  simp only [Bool.not_eq_true', ← Bool.not_eq_true, List.isPrefixOf_iff_prefix]
  constructor
  · rintro ⟨hfits, earlier, later, heq, hnone⟩
    exact ⟨earlier, later, heq, hfits, hnone⟩
  · rintro ⟨earlier, later, heq, hfits, hnone⟩
    exact ⟨hfits, earlier, later, heq, hnone⟩

theorem separatorAt?_eq_none : separatorAt? seps s = none ↔ ∀ sep ∈ seps, ¬sep <+: s := by
  simp only [separatorAt?, List.find?_eq_none, List.isPrefixOf_iff_prefix]

theorem IsFirst.mem (h : IsFirst seps sep s) : sep ∈ seps := by
  obtain ⟨earlier, later, rfl, -⟩ := h
  simp

theorem IsFirst.isPrefix (h : IsFirst seps sep s) : sep <+: s := h.choose_spec.choose_spec.2.1

theorem IsFirst.unique {other : Bytes} (h : IsFirst seps sep s) (h' : IsFirst seps other s) :
    sep = other :=
  Option.some.inj ((separatorAt?_eq_some.mpr h).symm.trans (separatorAt?_eq_some.mpr h'))

/-! ## Fields -/

/-- A field goes on until a separator fits, or to the end. -/
theorem field_cases (seps : List Bytes) (s : Bytes) : ∃ n ≤ s.length, Clear seps s 0 n ∧
    (n = s.length ∧ field seps s = (s, none) ∨
      ∃ sep, IsFirst seps sep (s.drop n) ∧
        field seps s = (s.take n, some (sep, s.drop (n + sep.length)))) := by
  induction s with
  | nil => exact ⟨0, Nat.le_refl 0, nofun, .inl ⟨rfl, rfl⟩⟩
  | cons c rest ih =>
    cases hsep : separatorAt? seps (c :: rest) with
    | some sep =>
      refine ⟨0, Nat.zero_le _, nofun, .inr ⟨sep, separatorAt?_eq_some.mp hsep, ?_⟩⟩
      simp [field, hsep]
    | none =>
      obtain ⟨n, hn, hclear, hfield⟩ := ih
      refine ⟨n + 1, Nat.succ_le_succ hn, ?_, ?_⟩
      · intro p _ hp
        cases p with
        | zero => exact separatorAt?_eq_none.mp hsep
        | succ p => exact hclear p (Nat.zero_le p) (Nat.lt_of_succ_lt_succ hp)
      · rcases hfield with ⟨rfl, hfield⟩ | ⟨sep, hfirst, hfield⟩
        · left
          simp [field, hsep, hfield]
        · right
          refine ⟨sep, hfirst, ?_⟩
          simp [field, hsep, hfield, Nat.succ_add]

theorem separateFrom_of_none {text : Bytes} (h : field seps s = (text, none)) :
    separateFrom seps pos s = [⟨text, pos, pos + text.length⟩] := by
  rw [separateFrom, h]

theorem length_lt_of_field {text rest : Bytes} (hseps : [] ∉ seps)
    (h : field seps s = (text, some (sep, rest))) : rest.length < s.length := by
  obtain ⟨n, hn, -, ⟨-, hfield⟩ | ⟨other, hfirst, hfield⟩⟩ := field_cases seps s
  · cases h.symm.trans hfield
  · cases h.symm.trans hfield
    have hpositive : 0 < sep.length :=
      List.length_pos_iff.mpr fun hnil => hseps (hnil ▸ hfirst.mem)
    have hfits := hfirst.isPrefix.length_le
    simp only [List.length_drop] at hfits ⊢
    omega

theorem separateFrom_of_some {text rest : Bytes} (hseps : [] ∉ seps)
    (h : field seps s = (text, some (sep, rest))) :
    separateFrom seps pos s =
      ⟨text, pos, pos + text.length⟩ :: separateFrom seps (pos + text.length + sep.length) rest := by
  have hlt := length_lt_of_field hseps h
  rw [separateFrom, h]
  dsimp only
  rw [dif_pos hlt]

/-! ## Cutting a string -/

/-- Tokens cut a string at separators, from a position on. -/
structure Divides (seps : List Bytes) (s : Bytes) (pos : Nat) (ts : List Token)
    (matched : List Bytes) : Prop where
  /-- The first token begins at the position. -/
  first : ts.head?.map (·.start) = some pos
  /-- The ranges are ranges of the string, -/
  inside : ∀ t ∈ ts, t.start ≤ t.stop ∧ t.stop ≤ s.length
  /-- and they are in order. -/
  ordered : ts.Pairwise (·.stop ≤ ·.start)
  /-- The text of a token is what stands in its range. -/
  text : ∀ t ∈ ts, t.text = s.extract t.start t.stop
  /-- No separator begins in the range of a token. -/
  clear : ∀ t ∈ ts, Clear seps s t.start t.stop
  /-- There is one matched separator between each two tokens that follow each other. -/
  count : ts.length = matched.length + 1
  /-- It is all that stands there, and the first of the list that fits. -/
  between : ∀ (i : Nat) (t : Token) (sep : Bytes) (u : Token),
    ts[i]? = some t → matched[i]? = some sep → ts[i + 1]? = some u →
      sep = s.extract t.stop u.start ∧ IsFirst seps sep (s.drop t.stop)

/-- The last token ends where the string ends. -/
def ReachesEnd (s : Bytes) (ts : List Token) : Prop := ts.getLast?.map (·.stop) = some s.length

/-- A place where a field can end: a separator stands there, or the string is over. -/
def CanEnd (seps : List Bytes) (s : Bytes) (q : Nat) : Prop :=
  q = s.length ∨ ∃ sep ∈ seps, sep <+: s.drop q

/-- Texts with separators between them. -/
def interleave : List Bytes → List Bytes → Bytes
  | text :: texts, sep :: seps => text ++ sep ++ interleave texts seps
  | texts, _ => texts.flatten

theorem ReachesEnd.cons (h : ReachesEnd s ts) : ReachesEnd s (t :: ts) := by
  obtain ⟨u, hu, hstop⟩ := Option.map_eq_some_iff.mp h
  rw [ReachesEnd, List.getLast?_cons, hu]
  exact congrArg some hstop

namespace Divides

theorem singleton (hstart : pos ≤ s.length) (hclear : Clear seps s pos s.length) :
    Divides seps s pos [⟨s.drop pos, pos, s.length⟩] [] where
  first := rfl
  inside := by simpa using hstart
  ordered := List.pairwise_singleton _ _
  text := List.forall_mem_singleton.mpr (Bytes.extract_length s pos).symm
  clear := by simpa using hclear
  count := rfl
  between := by simp

theorem start_eq (h : Divides seps s pos (t :: ts) matched) : t.start = pos := Option.some.inj h.first

theorem le_stop (h : Divides seps s pos (t :: ts) matched) : pos ≤ t.stop :=
  h.start_eq ▸ (h.inside t List.mem_cons_self).1

theorem le_start (h : Divides seps s pos ts matched) : ∀ t ∈ ts, pos ≤ t.start := by
  intro t ht
  cases ts with
  | nil => cases ht
  | cons u ts =>
    rcases List.mem_cons.mp ht with rfl | ht
    · exact Nat.le_of_eq h.start_eq.symm
    · exact Nat.le_trans h.le_stop (List.rel_of_pairwise_cons h.ordered ht)

theorem cons (hinside : t.start ≤ t.stop) (htext : t.text = s.extract t.start t.stop)
    (hclear : Clear seps s t.start t.stop) (hfirst : IsFirst seps sep (s.drop t.stop))
    (h : Divides seps s (t.stop + sep.length) ts matched) :
    Divides seps s t.start (t :: ts) (sep :: matched) where
  first := rfl
  inside := by
    intro u hu
    rcases List.mem_cons.mp hu with rfl | hu
    · refine ⟨hinside, ?_⟩
      obtain ⟨v, hv⟩ := List.exists_mem_of_length_pos (l := ts) (by rw [h.count]; omega)
      have := h.le_start v hv
      have := h.inside v hv
      omega
    · exact h.inside u hu
  ordered := by
    refine List.pairwise_cons.mpr ⟨fun u hu => ?_, h.ordered⟩
    have := h.le_start u hu
    omega
  text := List.forall_mem_cons.mpr ⟨htext, h.text⟩
  clear := List.forall_mem_cons.mpr ⟨hclear, h.clear⟩
  count := congrArg (· + 1) h.count
  between := by
    intro i u sep' v hu hsep hv
    cases i with
    | zero =>
      cases hu
      cases hsep
      have hstart : v.start = t.stop + sep.length := by
        have hhead := h.first
        rw [List.head?_eq_getElem?, show ts[0]? = some v from hv] at hhead
        exact Option.some.inj hhead
      refine ⟨?_, hfirst⟩
      rw [hstart, List.extract_eq_take_drop, Nat.add_sub_cancel_left]
      exact List.prefix_iff_eq_take.mp hfirst.isPrefix
    | succ i => exact h.between i u sep' v hu hsep hv

/-- Behind its first token and the separator there a string is cut in the same way. -/
theorem tail (h : Divides seps s pos (t :: u :: ts) matched) :
    ∃ sep rest, matched = sep :: rest ∧ IsFirst seps sep (s.drop t.stop) ∧
      Divides seps s (t.stop + sep.length) (u :: ts) rest := by
  have hcount := h.count
  simp only [List.length_cons] at hcount
  obtain ⟨sep, rest, rfl⟩ : ∃ sep rest, matched = sep :: rest :=
    List.exists_cons_of_length_pos (by omega)
  obtain ⟨hsep, hfirst⟩ := h.between 0 t sep u rfl rfl rfl
  have hstart : u.start = t.stop + sep.length := by
    have hu := h.inside u (by simp)
    have hle := List.rel_of_pairwise_cons h.ordered List.mem_cons_self
    have hlength := congrArg List.length hsep
    rw [Bytes.length_extract (Nat.le_trans hu.1 hu.2)] at hlength
    omega
  refine ⟨sep, rest, rfl, hfirst, ?_⟩
  exact {
    first := congrArg some hstart
    inside := fun v hv => h.inside v (List.mem_cons_of_mem t hv)
    ordered := (List.pairwise_cons.mp h.ordered).2
    text := fun v hv => h.text v (List.mem_cons_of_mem t hv)
    clear := fun v hv => h.clear v (List.mem_cons_of_mem t hv)
    count := Nat.succ.inj h.count
    between := fun i => h.between (i + 1) }

/-- What is kept of the tokens cuts the string as well. -/
theorem take (h : Divides seps s pos ts matched) (n : Nat) :
    Divides seps s pos (ts.take (n + 1)) (matched.take n) where
  first := by rw [List.head?_take, if_neg (Nat.succ_ne_zero n), h.first]
  inside := fun t ht => h.inside t (List.mem_of_mem_take ht)
  ordered := h.ordered.sublist (List.take_sublist _ _)
  text := fun t ht => h.text t (List.mem_of_mem_take ht)
  clear := fun t ht => h.clear t (List.mem_of_mem_take ht)
  count := by
    have := h.count
    simp only [List.length_take]
    omega
  between := by
    intro i t sep u ht hsep hu
    simp only [List.getElem?_take, Option.ite_none_right_eq_some] at ht hsep hu
    exact h.between i t sep u ht.2 hsep.2 hu.2

/-! ## There is one way to cut -/

theorem canEnd_stop (h : Divides seps s pos (t :: ts) matched) (hend : ReachesEnd s (t :: ts)) :
    CanEnd seps s t.stop := by
  cases ts with
  | nil => exact .inl (Option.some.inj hend)
  | cons u ts =>
    obtain ⟨sep, -, -, hfirst, -⟩ := h.tail
    exact .inr ⟨sep, hfirst.mem, hfirst.isPrefix⟩

/-- A field ends at the first place where it can. -/
theorem stop_le (h : Divides seps s pos (t :: ts) matched) {q : Nat} (hq : pos ≤ q)
    (hcan : CanEnd seps s q) : t.stop ≤ q := by
  have hstart := h.start_eq
  have hinside := h.inside t List.mem_cons_self
  refine Nat.le_of_not_lt fun hlt => ?_
  rcases hcan with hend | ⟨sep, hmem, hfits⟩
  · omega
  · exact h.clear t List.mem_cons_self q (by omega) (by omega) sep hmem hfits

theorem head_eq {us : List Token} {found : List Bytes}
    (h : Divides seps s pos (t :: ts) matched) (hend : ReachesEnd s (t :: ts))
    (h' : Divides seps s pos (u :: us) found) (hend' : ReachesEnd s (u :: us)) : t = u := by
  have hstart : t.start = u.start := h.start_eq.trans h'.start_eq.symm
  have hstop : t.stop = u.stop :=
    Nat.le_antisymm (h.stop_le h'.le_stop (h'.canEnd_stop hend'))
      (h'.stop_le h.le_stop (h.canEnd_stop hend))
  refine eq_of_parts ?_ hstart hstop
  rw [h.text t List.mem_cons_self, h'.text u List.mem_cons_self, hstart, hstop]

/-- **A string is cut in one way only.** -/
theorem unique {us : List Token} {found : List Bytes} (hseps : [] ∉ seps)
    (h : Divides seps s pos ts matched) (hend : ReachesEnd s ts)
    (h' : Divides seps s pos us found) (hend' : ReachesEnd s us) : us = ts ∧ found = matched := by
  -- At the end of the string no separator fits, so that both lists of tokens end at once.
  have hover {q : Nat} {sep : Bytes} (hq : q = s.length) : ¬IsFirst seps sep (s.drop q) := by
    intro hfirst
    have hnil := hfirst.isPrefix
    rw [hq, List.drop_length, List.prefix_nil] at hnil
    exact hseps (hnil ▸ hfirst.mem)
  induction ts generalizing pos matched us found with
  | nil => cases h.first
  | cons t ts ih =>
    cases us with
    | nil => cases h'.first
    | cons u us =>
      obtain rfl := h.head_eq hend h' hend'
      cases ts with
      | nil =>
        cases us with
        | nil =>
          have hcount := h.count
          have hcount' := h'.count
          exact ⟨rfl, by simp_all⟩
        | cons v us =>
          obtain ⟨sep, -, -, hfirst, -⟩ := h'.tail
          exact absurd hfirst (hover (Option.some.inj hend))
      | cons w ts =>
        obtain ⟨sep, rest, rfl, hfirst, htail⟩ := h.tail
        cases us with
        | nil => exact absurd hfirst (hover (Option.some.inj hend'))
        | cons v us =>
          obtain ⟨sep', rest', rfl, hfirst', htail'⟩ := h'.tail
          obtain rfl := hfirst.unique hfirst'
          obtain ⟨hus, hrest⟩ := ih htail hend htail' hend'
          exact ⟨congrArg _ hus, congrArg _ hrest⟩

/-- **Nothing is lost.** The fields with the separators between them are the string again. -/
theorem interleave_eq (h : Divides seps s pos ts matched) (hend : ReachesEnd s ts) :
    interleave (ts.map (·.text)) matched = s.drop pos := by
  induction ts generalizing pos matched with
  | nil => cases h.first
  | cons t ts ih =>
    have htext := h.text t List.mem_cons_self
    rw [h.start_eq] at htext
    cases ts with
    | nil =>
      have hmatched : matched = [] := by simpa using h.count
      have hstop : t.stop = s.length := Option.some.inj hend
      rw [hmatched]
      change t.text ++ [] = _
      rw [List.append_nil, htext, hstop, Bytes.extract_length]
    | cons u ts =>
      obtain ⟨sep, rest, rfl, hfirst, htail⟩ := h.tail
      obtain ⟨after, hafter⟩ := hfirst.isPrefix
      change t.text ++ sep ++ interleave ((u :: ts).map (·.text)) rest = _
      rw [ih htail hend, ← List.drop_drop, ← Bytes.extract_append_drop s h.le_stop, htext, ← hafter,
        List.drop_left, List.append_assoc]

end Divides

/-! ## Separating -/

/-- The fields that are found cut the string up to its end. -/
theorem divides_separateFrom (hseps : [] ∉ seps) (hpos : pos ≤ s.length) :
    ∃ matched, Divides seps s pos (separateFrom seps pos (s.drop pos)) matched ∧
      ReachesEnd s (separateFrom seps pos (s.drop pos)) := by
  induction hn : s.length - pos using Nat.strongRecOn generalizing pos with
  | _ n ih =>
    obtain ⟨k, hk, hclear, hfield⟩ := field_cases seps (s.drop pos)
    rw [List.length_drop] at hk
    have hclear : Clear seps s pos (pos + k) := by
      intro p hp hlt sep hsep
      have := hclear (p - pos) (Nat.zero_le _) (by omega) sep hsep
      rwa [List.drop_drop, Nat.add_sub_cancel' hp] at this
    rcases hfield with ⟨rfl, hfield⟩ | ⟨sep, hfirst, hfield⟩
    · have hstop : pos + (s.drop pos).length = s.length := by
        rw [List.length_drop]
        omega
      rw [separateFrom_of_none hfield, hstop]
      rw [hstop] at hclear
      exact ⟨[], .singleton hpos hclear, rfl⟩
    · have hlt := length_lt_of_field hseps hfield
      have hfits := hfirst.isPrefix.length_le
      simp only [List.length_drop] at hlt hfits
      have htake : ((s.drop pos).take k).length = k := by
        rw [List.length_take, List.length_drop]
        omega
      rw [separateFrom_of_some hseps hfield, htake, List.drop_drop, ← Nat.add_assoc]
      rw [List.drop_drop] at hfirst
      obtain ⟨matched, htail, hend⟩ :=
        ih (s.length - (pos + k + sep.length)) (by omega) (by omega) rfl
      refine ⟨sep :: matched, ?_, hend.cons⟩
      exact .cons (t := ⟨_, pos, pos + k⟩) (Nat.le_add_right pos k) (by simp) hclear hfirst htail

theorem usableSeparators_eq (seps : List Bytes) :
    usableSeparators seps = (seps.filter (· ≠ [])).take 7 := by
  unfold usableSeparators
  congr 2
  funext sep
  cases sep <;> rfl

theorem nil_notMem_usableSeparators (seps : List Bytes) : [] ∉ usableSeparators seps := by
  intro hmem
  simpa using (List.mem_filter.mp (List.mem_of_mem_take hmem)).2

end Token

/-- **Separating loses nothing.** A string is cut in one way only at the first seven separators that are
not empty, up to its end, and the fields with the separators between them are the string again. These
fields are remembered, all of them if there are fewer than 257, and the first 256 otherwise. -/
theorem separated_losslessly (seps : List Bytes) (s : Bytes) (a : Activation) :
    ∃ fields matched b,
      (∀ ts found, Token.Divides ((seps.filter (· ≠ [])).take 7) s 0 ts found ∧
        Token.ReachesEnd s ts ↔ ts = fields ∧ found = matched) ∧
      Token.interleave (fields.map (·.text)) matched = s ∧
      Builtins.setTokens (Token.separate seps s) a = .ok () b ∧
      Token.Divides ((seps.filter (· ≠ [])).take 7) s 0 b.machine.tokens (matched.take 255) ∧
      (fields.length < 257 → b.machine.tokens = fields ∧ Token.ReachesEnd s b.machine.tokens) ∧
      (257 ≤ fields.length → b.machine.tokens = fields.take 256) := by
  rw [← Token.usableSeparators_eq]
  have hseps := Token.nil_notMem_usableSeparators seps
  obtain ⟨matched, hdivides, hend⟩ := Token.divides_separateFrom hseps (Nat.zero_le s.length)
  rw [List.drop_zero] at hdivides hend
  obtain ⟨b, hb, htokens⟩ := Builtins.exists_setTokens (Token.separate seps s) a
  refine ⟨Token.separate seps s, matched, b, ?_, ?_, hb, ?_, ?_, ?_⟩
  · intro ts found
    constructor
    · rintro ⟨h, hreaches⟩
      exact Token.Divides.unique hseps hdivides hend h hreaches
    · rintro ⟨rfl, rfl⟩
      exact ⟨hdivides, hend⟩
  · rw [Token.separate, hdivides.interleave_eq hend, List.drop_zero]
  · rw [htokens]
    exact hdivides.take 255
  · intro hlt
    have hall : b.machine.tokens = Token.separate seps s :=
      htokens.trans (List.take_of_length_le (Nat.le_of_lt_succ hlt))
    exact ⟨hall, hall ▸ hend⟩
  · intro _
    exact htokens

end QuakeVm
