import QuakeVm.Proofs.Separators
import Mathlib.Data.List.TakeWhile

/-!
# Tokens account for every byte

Blanks, comments, quotes and punctuation each end what stands before them in their own way. This module
says which tokens a string has: every token is quoted or bare, a bare one goes on as far as it can, and
every byte that is in no token is a blank or in a comment (`Accounts`).

This leaves no choice. What is passed over before a token ends where something begins that is neither
a blank nor a comment, and there is one such place (`Passed.unique`): a place that is passed over one way
would lie in a comment the other way, and then both comments would end at the same line feed. A token is
determined by where it begins (`IsToken.unique`). So a string has its tokens and no others
(`Accounts.unique`), and these are the ones that are found (`accounts_lexFrom`).
-/

namespace QuakeVm

namespace Token

variable {special : Bool} {s : Bytes} {pos start stop : Nat} {t u : Token} {ts us : List Token}
  {f : UInt8 → Bool}

/-! ## Runs of bytes -/

/-- A range of bytes that satisfy `f`, up to the first byte that does not or to the end. -/
structure Run (f : UInt8 → Bool) (s : Bytes) (start stop : Nat) : Prop where
  le : start ≤ stop
  inside : stop ≤ s.length
  all : ∀ (p : Nat) (c : UInt8), start ≤ p → p < stop → s[p]? = some c → f c = true
  ends : ∀ c, s[stop]? = some c → f c = false

theorem Run.le_of_ends {n : Nat} (h : Run f s start n) (hstop : stop ≤ s.length) (hle : start ≤ stop)
    (hends : ∀ c, s[stop]? = some c → f c = false) : n ≤ stop := by
  refine Nat.le_of_not_lt fun hlt => ?_
  have hinside := h.inside
  have hbyte : s[stop]? = some s[stop] := List.getElem?_eq_getElem (by omega)
  have hfalse := hends _ hbyte
  rw [h.all stop _ hle hlt hbyte] at hfalse
  cases hfalse

theorem Run.unique {n m : Nat} (h : Run f s start n) (h' : Run f s start m) : n = m :=
  Nat.le_antisymm (h.le_of_ends h'.inside h'.le h'.ends) (h'.le_of_ends h.inside h.le h.ends)

/-- Bytes are taken and dropped by runs. -/
theorem exists_run (f : UInt8 → Bool) (h : start ≤ s.length) :
    ∃ stop, Run f s start stop ∧ (s.drop start).takeWhile f = s.extract start stop ∧
      (s.drop start).dropWhile f = s.drop stop := by
  have hidx : (s.drop start).findIdx (! f ·) ≤ s.length - start := by
    rw [← List.length_drop]
    exact List.findIdx_le_length
  have hat (p : Nat) : s[start + p]? = (s.drop start)[p]? := List.getElem?_drop.symm
  refine ⟨start + (s.drop start).findIdx (! f ·), ⟨by omega, by omega, ?_, ?_⟩, ?_, ?_⟩
  · intro p c hp hlt hc
    rw [← Nat.add_sub_cancel' hp, hat] at hc
    obtain ⟨hlength, rfl⟩ := List.getElem?_eq_some_iff.mp hc
    have hbefore : p - start < (s.drop start).findIdx (! f ·) := by omega
    simpa using List.not_of_lt_findIdx hbefore
  · intro c hc
    rw [hat] at hc
    obtain ⟨hlength, rfl⟩ := List.getElem?_eq_some_iff.mp hc
    simpa using @List.findIdx_getElem _ (! f ·) _ hlength
  · rw [List.takeWhile_eq_take_findIdx_not, List.extract_eq_take_drop, Nat.add_sub_cancel_left]
  · rw [List.dropWhile_eq_drop_findIdx_not, List.drop_drop]

/-! ## What is passed over -/

/-- A comment begins with two slashes and goes on to the end of the line. -/
def Comment (s : Bytes) (start stop : Nat) : Prop :=
  [0x2f, 0x2f] <+: s.drop start ∧ Run (· != 0x0a) s start stop

/-- A byte that no token has: it is up to the space, or in a comment of free positions only. -/
def Skipped (s : Bytes) (free : Nat → Prop) (p : Nat) (c : UInt8) : Prop :=
  c ≤ 0x20 ∨ ∃ first last, Comment s first last ∧ first ≤ p ∧ p < last ∧
    ∀ q, first ≤ q → q < last → free q

/-- A range in which all bytes are skipped, and no comment goes beyond it. -/
structure Passed (s : Bytes) (pos stop : Nat) : Prop where
  le : pos ≤ stop
  inside : stop ≤ s.length
  bytes : ∀ (p : Nat) (c : UInt8), pos ≤ p → p < stop → s[p]? = some c →
    Skipped s (fun q => pos ≤ q ∧ q < stop) p c

/-- Neither a blank nor a comment begins here. -/
def Begins (s : Bytes) (p : Nat) : Prop :=
  (∀ c, s[p]? = some c → 0x20 < c) ∧ ¬[0x2f, 0x2f] <+: s.drop p

theorem begins_length (s : Bytes) : Begins s s.length := by
  constructor
  · intro c hc
    simp at hc
  · simp

theorem Comment.slash (h : Comment s start stop) : s[start]? = some 0x2f := by
  obtain ⟨rest, hrest⟩ := h.1
  have hfirst : (s.drop start)[0]? = some 0x2f := by
    rw [← hrest]
    rfl
  rwa [List.getElem?_drop] at hfirst

section Skipped

variable {free free' : Nat → Prop} {p : Nat} {c : UInt8}

/-- A comment is a range, so that what is free may depend on all of it. -/
theorem Skipped.imp (h : Skipped s free p c)
    (himp : ∀ first last, first ≤ p → p < last → last ≤ s.length →
      (∀ q, first ≤ q → q < last → free q) → ∀ q, first ≤ q → q < last → free' q) :
    Skipped s free' p c := by
  rcases h with hblank | ⟨first, last, hcomment, hfirst, hlast, hfree⟩
  · exact .inl hblank
  · exact .inr ⟨first, last, hcomment, hfirst, hlast,
      himp first last hfirst hlast hcomment.2.inside hfree⟩

theorem Skipped.mono (h : Skipped s free p c) (himp : ∀ q, free q → free' q) : Skipped s free' p c :=
  h.imp fun _ _ _ _ _ hfree q hq hlt => himp q (hfree q hq hlt)

end Skipped

theorem Comment.passed (h : Comment s start stop) : Passed s start stop where
  le := h.2.le
  inside := h.2.inside
  bytes := fun _ _ hp hlt _ => .inr ⟨start, stop, h, hp, hlt, fun _ hq hqlt => ⟨hq, hqlt⟩⟩

theorem Passed.trans {n : Nat} (h : Passed s pos n) (h' : Passed s n stop) : Passed s pos stop where
  le := Nat.le_trans h.le h'.le
  inside := h'.inside
  bytes := by
    intro p c hp hlt hc
    have hle := h.le
    have hle' := h'.le
    rcases Nat.lt_or_ge p n with hbefore | hafter
    · exact (h.bytes p c hp hbefore hc).mono fun q hq => by omega
    · exact (h'.bytes p c hafter hlt hc).mono fun q hq => by omega

/-- A place where something begins is not passed over another way. It would lie in a comment, and what
comes before it in this comment is passed over only in a comment that ends at the same line feed. -/
theorem Passed.le_of_begins {n m : Nat} (hn : Passed s pos n) (hm : Passed s pos m)
    (hbegins : Begins s m) : n ≤ m := by
  refine Nat.le_of_not_lt fun hlt => ?_
  have hinside := hn.inside
  have hbyte : s[m]? = some s[m] := List.getElem?_eq_getElem (by omega)
  rcases hn.bytes m _ hm.le hlt hbyte with hblank | ⟨first, last, hcomment, hle, hlast, hfree⟩
  · exact absurd hblank (UInt8.not_le.mpr (hbegins.1 _ hbyte))
  · rcases Nat.eq_or_lt_of_le hle with rfl | hbefore
    · exact hbegins.2 hcomment.1
    · have hfirst := (hfree first (Nat.le_refl _) (by omega)).1
      rcases hm.bytes first _ hfirst hbefore hcomment.slash with hblank | hother
      · exact absurd hblank (by decide)
      · obtain ⟨_, feed, hcomment', hle', hfeed, hfree'⟩ := hother
        have hstop := (hfree' (feed - 1) (by omega) (by omega)).2
        have hend : s[feed]? = some s[feed] := List.getElem?_eq_getElem (by omega)
        have hfalse := hcomment'.2.ends _ hend
        rw [hcomment.2.all feed _ (by omega) (by omega) hend] at hfalse
        cases hfalse

theorem Passed.unique {n m : Nat} (hn : Passed s pos n) (hbegins : Begins s n) (hm : Passed s pos m)
    (hbegins' : Begins s m) : n = m :=
  Nat.le_antisymm (hn.le_of_begins hm hbegins') (hm.le_of_begins hn hbegins)

/-- Skipping passes over a range, up to where something begins. -/
theorem exists_skip (hpos : pos ≤ s.length) :
    ∃ stop, skip (s.drop pos) = s.drop stop ∧ Passed s pos stop ∧ Begins s stop := by
  induction hn : s.length - pos using Nat.strongRecOn generalizing pos with
  | _ n ih =>
    obtain ⟨stop, hrun, -, hdrop⟩ := exists_run isGap hpos
    have hgaps : Passed s pos stop := by
      refine ⟨hrun.le, hrun.inside, fun p c hp hlt hc => .inl ?_⟩
      simpa [isGap] using hrun.all p c hp hlt hc
    rw [skip]
    split
    · rename_i rest hslashes
      rw [hslashes] at hdrop
      obtain ⟨last, hline, -, hafter⟩ := exists_run (· != 0x0a) hrun.inside
      rw [← hdrop, List.dropWhile_cons_of_pos (by decide), List.dropWhile_cons_of_pos (by decide)]
        at hafter
      have hcomment : Comment s stop last := ⟨⟨rest, hdrop⟩, hline⟩
      have hshorter : s.length - last < s.length - pos := by
        have hle := (List.dropWhile_sublist (l := rest) (· != 0x0a)).length_le
        have hlength := congrArg List.length hdrop
        have := hrun.le
        rw [hafter, List.length_drop] at hle
        simp only [List.length_cons, List.length_drop] at hlength
        omega
      obtain ⟨final, hskip, hpassed, hbegins⟩ := ih _ (hn ▸ hshorter) hline.inside rfl
      rw [hafter]
      exact ⟨final, hskip, (hgaps.trans hcomment.passed).trans hpassed, hbegins⟩
    · rename_i hslashes
      refine ⟨stop, hdrop, hgaps, ?_, ?_⟩
      · intro c hc
        simpa [isGap] using hrun.ends c hc
      · rintro ⟨rest, hrest⟩
        exact hslashes rest (hdrop.trans hrest.symm)

/-! ## Single tokens -/

/-- A quoted token has the text up to the next quote or to the end. Its range includes the quotes. -/
def Quoted (s : Bytes) (t : Token) : Prop :=
  ∃ close, Run (· != 0x22) s (t.start + 1) close ∧ t.text = s.extract (t.start + 1) close ∧
    t.stop = if close < s.length then close + 1 else close

/-- A token that is a punctuation character alone. -/
def IsLone (t : Token) : Prop := ∃ c, isPunctuation c = true ∧ t.text = [c]

/-- A token without quotes around it. -/
structure Bare (special : Bool) (s : Bytes) (t : Token) : Prop where
  /-- The text is what stands in the range. -/
  text : t.text = s.extract t.start t.stop
  /-- No blank is in it, -/
  visible : ∀ c ∈ t.text, 0x20 < c
  /-- it does not begin with a comment, -/
  noComment : ¬[0x2f, 0x2f] <+: t.text
  /-- and punctuation that counts is not in it, unless it is all there is. -/
  punctuation : special = true → IsLone t ∨ ∀ c ∈ t.text, isPunctuation c = false
  /-- It goes on as far as it can. -/
  maximal : ∀ c, s[t.stop]? = some c →
    c ≤ 0x20 ∨ special = true ∧ (isPunctuation c = true ∨ IsLone t)

/-- A token of a string. -/
structure IsToken (special : Bool) (s : Bytes) (t : Token) : Prop where
  nonempty : t.start < t.stop
  inside : t.stop ≤ s.length
  quoted : s[t.start]? = some 0x22 → Quoted s t
  bare : s[t.start]? ≠ some 0x22 → Bare special s t

theorem not_endsBare_eq_true {c : UInt8} :
    (! endsBare special c) = true ↔ 0x20 < c ∧ (special = true → isPunctuation c = false) := by
  cases special <;> simp [endsBare, isGap]

theorem not_endsBare_eq_false {c : UInt8} :
    (! endsBare special c) = false ↔ c ≤ 0x20 ∨ special = true ∧ isPunctuation c = true := by
  simp only [endsBare, isGap, Bool.not_eq_false', Bool.or_eq_true, Bool.and_eq_true, decide_eq_true_eq]

theorem drop_eq_cons {n : Nat} {c : UInt8} {rest : Bytes} :
    s.drop n = c :: rest ↔ s[n]? = some c ∧ rest = s.drop (n + 1) := by
  constructor
  · intro h
    constructor
    · rw [← Nat.add_zero n, ← List.getElem?_drop, h]
      rfl
    · rw [← List.tail_drop, h, List.tail_cons]
  · rintro ⟨hc, rfl⟩
    obtain ⟨hlt, rfl⟩ := List.getElem?_eq_some_iff.mp hc
    exact List.drop_eq_getElem_cons hlt

theorem mem_extract {c : UInt8} :
    c ∈ s.extract start stop ↔ ∃ p, start ≤ p ∧ p < stop ∧ s[p]? = some c := by
  rw [List.extract_eq_take_drop, List.mem_iff_getElem?]
  simp only [List.getElem?_take, List.getElem?_drop, Option.ite_none_right_eq_some]
  constructor
  · rintro ⟨i, hlt, hc⟩
    exact ⟨start + i, by omega, by omega, hc⟩
  · rintro ⟨p, hle, hlt, hc⟩
    exact ⟨p - start, by omega, by rwa [Nat.add_sub_cancel' hle]⟩

theorem IsToken.exists_first (h : IsToken special s t) : ∃ c, s[t.start]? = some c := by
  have hlt := h.nonempty
  have hinside := h.inside
  exact ⟨s[t.start], List.getElem?_eq_getElem (by omega)⟩

/-- How far a bare token goes, by its first byte. -/
theorem Bare.run (h : Bare special s t) (hlt : t.start < t.stop) (hinside : t.stop ≤ s.length)
    {c : UInt8} (hc : s[t.start]? = some c) :
    if special = true ∧ isPunctuation c = true then t.stop = t.start + 1
    else Run (! endsBare special ·) s t.start t.stop := by
  have hmem {p : Nat} {d : UInt8} (hle : t.start ≤ p) (hlt : p < t.stop) (hd : s[p]? = some d) :
      d ∈ t.text := h.text ▸ mem_extract.mpr ⟨p, hle, hlt, hd⟩
  have hfirst : c ∈ t.text := hmem (Nat.le_refl _) hlt hc
  split
  · rename_i hlone
    rcases h.punctuation hlone.1 with ⟨d, -, htext⟩ | hnone
    · have hlength := congrArg List.length (h.text.symm.trans htext)
      simp only [List.extract_eq_take_drop, List.length_take, List.length_drop, List.length_cons,
        List.length_nil] at hlength
      omega
    · rw [hnone c hfirst] at hlone
      cases hlone.2
  · rename_i hlone
    -- A token that is a punctuation character alone begins with it.
    have hnot : special = true → ¬IsLone t := by
      rintro hspecial ⟨d, hd, htext⟩
      rw [htext, List.mem_singleton] at hfirst
      exact hlone ⟨hspecial, hfirst ▸ hd⟩
    refine ⟨Nat.le_of_lt hlt, hinside, ?_, ?_⟩
    · intro p d hle hlt hd
      have hd := hmem hle hlt hd
      refine not_endsBare_eq_true.mpr ⟨h.visible d hd, fun hspecial => ?_⟩
      exact (h.punctuation hspecial).resolve_left (hnot hspecial) d hd
    · intro d hd
      apply not_endsBare_eq_false.mpr
      rcases h.maximal d hd with hblank | ⟨hspecial, hpunctuation | hlone'⟩
      · exact .inl hblank
      · exact .inr ⟨hspecial, hpunctuation⟩
      · exact absurd hlone' (hnot hspecial)

/-- A token is determined by where it begins. -/
theorem IsToken.unique (h : IsToken special s t) (h' : IsToken special s u)
    (hstart : t.start = u.start) : t = u := by
  by_cases hquote : s[t.start]? = some 0x22
  · obtain ⟨close, hrun, htext, hstop⟩ := h.quoted hquote
    obtain ⟨close', hrun', htext', hstop'⟩ := h'.quoted (hstart ▸ hquote)
    rw [← hstart] at hrun' htext'
    obtain rfl := hrun.unique hrun'
    exact eq_of_parts (htext.trans htext'.symm) hstart (hstop.trans hstop'.symm)
  · have hbare := h.bare hquote
    have hbare' := h'.bare (hstart ▸ hquote)
    obtain ⟨c, hc⟩ := h.exists_first
    have hrun := hbare.run h.nonempty h.inside hc
    have hrun' := hbare'.run h'.nonempty h'.inside (hstart ▸ hc)
    have hstop : t.stop = u.stop := by
      split at hrun
      · rename_i hlone
        rw [if_pos hlone] at hrun'
        omega
      · rename_i hlone
        rw [if_neg hlone, ← hstart] at hrun'
        exact hrun.unique hrun'
    exact eq_of_parts (by rw [hbare.text, hbare'.text, hstart, hstop]) hstart hstop

/-- Where a token begins, no blank and no comment begins. -/
theorem IsToken.begins (h : IsToken special s t) : Begins s t.start := by
  have hlt := h.nonempty
  constructor
  · intro c hc
    by_cases hquote : s[t.start]? = some 0x22
    · obtain rfl : c = 0x22 := Option.some.inj (hc.symm.trans hquote)
      decide
    · have hbare := h.bare hquote
      exact hbare.visible c (hbare.text ▸ mem_extract.mpr ⟨t.start, Nat.le_refl _, hlt, hc⟩)
  · rintro ⟨rest, hrest⟩
    have hat (i : Nat) : s[t.start + i]? = ([0x2f, 0x2f] ++ rest)[i]? := by
      rw [hrest, List.getElem?_drop]
    have hslash : s[t.start]? = some 0x2f := hat 0
    have hbare := h.bare (by rw [hslash]; decide)
    have hrun := hbare.run hlt h.inside hslash
    rw [if_neg (by rintro ⟨-, hslash⟩; cases hslash)] at hrun
    -- The second slash does not end the token, so that it begins with a comment.
    have hlonger : t.stop ≠ t.start + 1 := by
      intro hstop
      have hends := hrun.ends 0x2f (by rw [hstop]; exact hat 1)
      cases special <;> cases hends
    obtain ⟨n, hn⟩ : ∃ n, t.stop - t.start = n + 2 := ⟨t.stop - t.start - 2, by omega⟩
    apply hbare.noComment
    rw [hbare.text, List.extract_eq_take_drop, ← hrest, hn]
    exact ⟨rest.take n, rfl⟩

theorem isToken_quoted (hquote : s[start]? = some 0x22) {close : Nat}
    (hrun : Run (· != 0x22) s (start + 1) close) :
    IsToken special s ⟨s.extract (start + 1) close, start,
      if close < s.length then close + 1 else close⟩ where
  nonempty := by
    have hle := hrun.le
    dsimp only
    split <;> omega
  inside := by
    have hinside := hrun.inside
    dsimp only
    split <;> omega
  quoted := fun _ => ⟨close, hrun, rfl, rfl⟩
  bare := fun hbare => absurd hquote hbare

theorem isToken_lone {c : UInt8} (hc : s[start]? = some c) (hquote : c ≠ 0x22)
    (hbegins : Begins s start) (hspecial : special = true) (hlone : isPunctuation c = true) :
    IsToken special s ⟨[c], start, start + 1⟩ where
  nonempty := Nat.lt_succ_self start
  inside := (List.getElem?_eq_some_iff.mp hc).1
  quoted := fun h => absurd (Option.some.inj (hc.symm.trans h)) hquote
  bare := fun _ => {
    text := by
      rw [List.extract_eq_take_drop, drop_eq_cons.mpr ⟨hc, rfl⟩, Nat.add_sub_cancel_left]
      rfl
    visible := List.forall_mem_singleton.mpr (hbegins.1 c hc)
    noComment := fun h => by simpa using h.length_le
    punctuation := fun _ => .inl ⟨c, hlone, rfl⟩
    maximal := fun _ _ => .inr ⟨hspecial, .inr ⟨c, hlone, rfl⟩⟩ }

theorem isToken_bare (hquote : s[start]? ≠ some 0x22) (hbegins : Begins s start) (hlt : start < stop)
    (hrun : Run (! endsBare special ·) s start stop) :
    IsToken special s ⟨s.extract start stop, start, stop⟩ where
  nonempty := hlt
  inside := hrun.inside
  quoted := fun h => absurd h hquote
  bare := fun _ => {
    text := rfl
    visible := by
      intro c hc
      obtain ⟨p, hle, hlt, hc⟩ := mem_extract.mp hc
      exact (not_endsBare_eq_true.mp (hrun.all p c hle hlt hc)).1
    noComment := fun h => hbegins.2 (h.trans (List.take_prefix _ _))
    punctuation := by
      intro hspecial
      refine .inr fun c hc => ?_
      obtain ⟨p, hle, hlt, hc⟩ := mem_extract.mp hc
      exact (not_endsBare_eq_true.mp (hrun.all p c hle hlt hc)).2 hspecial
    maximal := by
      intro c hc
      rcases not_endsBare_eq_false.mp (hrun.ends c hc) with hblank | ⟨hspecial, hpunctuation⟩
      · exact .inl hblank
      · exact .inr ⟨hspecial, .inl hpunctuation⟩ }

/-- What is taken up to the next quote is a quoted token. -/
theorem isToken_takeWhile_quote (hc : s[start]? = some 0x22) {text after : Bytes}
    (htext : (s.drop (start + 1)).takeWhile (· != 0x22) = text)
    (hafter : (s.drop (start + 1)).dropWhile (· != 0x22) = after) :
    IsToken special s ⟨text, start, start + 1 + text.length + min 1 after.length⟩ ∧
      after.drop 1 = s.drop (start + 1 + text.length + min 1 after.length) := by
  have hlt := (List.getElem?_eq_some_iff.mp hc).1
  obtain ⟨close, hrun, htake, hdrop⟩ := exists_run (· != 0x22) (Nat.succ_le_of_lt hlt)
  have hle := hrun.le
  have hinside := hrun.inside
  obtain rfl := htake.symm.trans htext
  obtain rfl := hdrop.symm.trans hafter
  have hstop : start + 1 + (s.extract (start + 1) close).length + min 1 (s.drop close).length =
      if close < s.length then close + 1 else close := by
    rw [Bytes.length_extract hinside, List.length_drop]
    split <;> omega
  rw [hstop, List.drop_drop]
  refine ⟨isToken_quoted hc hrun, ?_⟩
  split
  · rfl
  · rw [List.drop_eq_nil_of_le (by omega), List.drop_eq_nil_of_le (by omega)]

/-- What is taken up to a byte that ends it is a bare token. -/
theorem isToken_takeWhile_bare {c : UInt8} (hc : s[start]? = some c) (hquote : c ≠ 0x22)
    (hbegins : Begins s start) (hlone : ¬(special = true ∧ isPunctuation c = true)) {text : Bytes}
    (htext : c :: (s.drop (start + 1)).takeWhile (! endsBare special ·) = text) :
    IsToken special s ⟨text, start, start + text.length⟩ ∧
      (s.drop (start + 1)).dropWhile (! endsBare special ·) = s.drop (start + text.length) := by
  have hlt := (List.getElem?_eq_some_iff.mp hc).1
  have hkept : (! endsBare special c) = true := by
    refine not_endsBare_eq_true.mpr ⟨hbegins.1 c hc, fun hspecial => ?_⟩
    exact Bool.eq_false_iff.mpr fun hpunctuation => hlone ⟨hspecial, hpunctuation⟩
  obtain ⟨stop, hrun, htake, hdrop⟩ := exists_run (! endsBare special ·) (Nat.le_of_lt hlt)
  have hrest : s.drop start = c :: s.drop (start + 1) := drop_eq_cons.mpr ⟨hc, rfl⟩
  rw [hrest, List.takeWhile_cons_of_pos (p := (! endsBare special ·)) hkept] at htake
  rw [hrest, List.dropWhile_cons_of_pos (p := (! endsBare special ·)) hkept] at hdrop
  have hlength := congrArg List.length htake
  rw [Bytes.length_extract hrun.inside, List.length_cons] at hlength
  obtain rfl := htake.symm.trans htext
  have hstop : start + (s.extract start stop).length = stop := by
    rw [Bytes.length_extract hrun.inside]
    omega
  rw [hstop]
  exact ⟨isToken_bare (by simpa [hc] using hquote) hbegins (by omega) hrun, hdrop⟩

/-- The next token, if there is one, stands behind what is passed over. -/
theorem next?_cases (special : Bool) (hpos : pos ≤ s.length) :
    (next? special pos (s.drop pos) = none ∧ Passed s pos s.length) ∨
      ∃ t, next? special pos (s.drop pos) = some (t, s.drop t.stop) ∧ IsToken special s t ∧
        Passed s pos t.start := by
  obtain ⟨start, hskip, hpassed, hbegins⟩ := exists_skip hpos
  have hstart : pos + ((s.drop pos).length - (s.drop start).length) = start := by
    have hle := hpassed.le
    have hinside := hpassed.inside
    simp only [List.length_drop]
    omega
  unfold next?
  rw [hskip, hstart]
  cases hrest : s.drop start with
  | nil =>
    left
    have hend : start = s.length :=
      Nat.le_antisymm hpassed.inside (List.drop_eq_nil_iff.mp hrest)
    exact ⟨rfl, hend ▸ hpassed⟩
  | cons c rest =>
    right
    obtain ⟨hc, rfl⟩ := drop_eq_cons.mp hrest
    dsimp only
    by_cases hquote : c = 0x22
    · subst hquote
      obtain ⟨htoken, hbehind⟩ : IsToken special s _ ∧ _ := isToken_takeWhile_quote hc rfl rfl
      rw [if_pos (beq_self_eq_true _), hbehind]
      exact ⟨_, rfl, htoken, hpassed⟩
    · rw [if_neg (by simpa using hquote)]
      by_cases hlone : special = true ∧ isPunctuation c = true
      · rw [if_pos (by simpa using hlone)]
        exact ⟨_, rfl, isToken_lone hc hquote hbegins hlone.1 hlone.2, hpassed⟩
      · obtain ⟨htoken, hbehind⟩ := isToken_takeWhile_bare hc hquote hbegins hlone rfl
        rw [if_neg (by simpa using hlone), hbehind]
        exact ⟨_, rfl, htoken, hpassed⟩

/-! ## All tokens -/

/-- A position that is in the range of no token. -/
def Outside (ts : List Token) (p : Nat) : Prop := ∀ t ∈ ts, p < t.start ∨ t.stop ≤ p

/-- Tokens that account for all bytes of a string, from a position on. -/
structure Accounts (special : Bool) (s : Bytes) (pos : Nat) (ts : List Token) : Prop where
  tokens : ∀ t ∈ ts, IsToken special s t
  /-- The ranges are in order, one behind the other. -/
  ordered : ts.Pairwise (·.stop ≤ ·.start)
  behind : ∀ t ∈ ts, pos ≤ t.start
  /-- What is in no range is skipped, and so is all of a comment. -/
  outside : ∀ (p : Nat) (c : UInt8), pos ≤ p → s[p]? = some c → Outside ts p →
    Skipped s (fun q => pos ≤ q ∧ Outside ts q) p c

theorem outside_nil (p : Nat) : Outside [] p := List.forall_mem_nil _

theorem outside_cons {p : Nat} :
    Outside (t :: ts) p ↔ (p < t.start ∨ t.stop ≤ p) ∧ Outside ts p := List.forall_mem_cons

namespace Accounts

theorem nil (h : Passed s pos s.length) : Accounts special s pos [] where
  tokens := List.forall_mem_nil _
  ordered := .nil
  behind := List.forall_mem_nil _
  outside := by
    intro p c hp hc _
    have hlt := (List.getElem?_eq_some_iff.mp hc).1
    exact (h.bytes p c hp hlt hc).mono fun q hq => ⟨hq.1, outside_nil q⟩

/-- Before the first token there is no token. -/
theorem outside_of_lt (h : Accounts special s pos ts) {p : Nat} (hp : p < pos) : Outside ts p :=
  fun t ht => .inl (Nat.lt_of_lt_of_le hp (h.behind t ht))

theorem cons (htoken : IsToken special s t) (hpassed : Passed s pos t.start)
    (h : Accounts special s t.stop ts) : Accounts special s pos (t :: ts) where
  tokens := List.forall_mem_cons.mpr ⟨htoken, h.tokens⟩
  ordered := List.pairwise_cons.mpr ⟨h.behind, h.ordered⟩
  behind := by
    have hle := hpassed.le
    have hlt := htoken.nonempty
    refine List.forall_mem_cons.mpr ⟨hle, fun u hu => ?_⟩
    have := h.behind u hu
    omega
  outside := by
    intro p c hp hc houtside
    have hlt := htoken.nonempty
    have hle := hpassed.le
    obtain ⟨hbefore | hafter, hts⟩ := outside_cons.mp houtside
    · refine (hpassed.bytes p c hp hbefore hc).mono fun q hq => ⟨hq.1, ?_⟩
      exact outside_cons.mpr ⟨.inl hq.2, h.outside_of_lt (by omega)⟩
    · refine (h.outside p c hafter hc hts).mono fun q hq => ⟨by omega, ?_⟩
      exact outside_cons.mpr ⟨.inr hq.1, hq.2⟩

/-- If there are no tokens, all of the string is passed over. -/
theorem passed_of_nil (h : Accounts special s pos []) (hpos : pos ≤ s.length) :
    Passed s pos s.length where
  le := hpos
  inside := Nat.le_refl _
  bytes := by
    intro p c hp _ hc
    refine (h.outside p c hp hc (outside_nil p)).imp fun first last _ _ hlength hfree q hq hlt => ?_
    exact ⟨(hfree q hq hlt).1, Nat.lt_of_lt_of_le hlt hlength⟩

theorem tail (h : Accounts special s pos (t :: ts)) : Accounts special s t.stop ts where
  tokens := fun u hu => h.tokens u (List.mem_cons_of_mem t hu)
  ordered := (List.pairwise_cons.mp h.ordered).2
  behind := (List.pairwise_cons.mp h.ordered).1
  outside := by
    intro p c hp hc houtside
    have hnonempty := (h.tokens t List.mem_cons_self).nonempty
    have hbehind := h.behind t List.mem_cons_self
    refine (h.outside p c (by omega) hc (outside_cons.mpr ⟨.inr hp, houtside⟩)).imp
      fun first last hfirst hlast _ hfree q hq hlt => ?_
    -- A comment that began before the end of the token would have its last byte.
    have hlate : t.stop ≤ first := by
      refine Nat.le_of_not_lt fun hearly => ?_
      have hinside := (outside_cons.mp (hfree (t.stop - 1) (by omega) (by omega)).2).1
      omega
    exact ⟨by omega, (outside_cons.mp (hfree q hq hlt).2).2⟩

/-- All that stands before the first token is passed over. -/
theorem passed_of_cons (h : Accounts special s pos (t :: ts)) : Passed s pos t.start where
  le := h.behind t List.mem_cons_self
  inside := by
    have htoken := h.tokens t List.mem_cons_self
    exact Nat.le_trans (Nat.le_of_lt htoken.nonempty) htoken.inside
  bytes := by
    intro p c hp hlt hc
    have hnonempty := (h.tokens t List.mem_cons_self).nonempty
    have houtside : Outside (t :: ts) p :=
      outside_cons.mpr ⟨.inl hlt, h.tail.outside_of_lt (by omega)⟩
    refine (h.outside p c hp hc houtside).imp fun first last hfirst hlast _ hfree q hq hqlt => ?_
    -- A comment that went on into the token would have its first byte.
    have hshort : last ≤ t.start := by
      refine Nat.le_of_not_lt fun hlong => ?_
      have hinside := (outside_cons.mp (hfree t.start (by omega) hlong).2).1
      omega
    exact ⟨(hfree q hq hqlt).1, by omega⟩

/-- A string that has a token is not passed over up to its end. -/
theorem not_passed_length (h : Accounts special s pos (t :: ts)) : ¬Passed s pos s.length := by
  intro hpassed
  have htoken := h.tokens t List.mem_cons_self
  have hstart := hpassed.unique (begins_length s) h.passed_of_cons htoken.begins
  have hnonempty := htoken.nonempty
  have hinside := htoken.inside
  omega

/-- **A string has its tokens and no others.** -/
theorem unique (h : Accounts special s pos ts) (h' : Accounts special s pos us)
    (hpos : pos ≤ s.length) : us = ts := by
  induction ts generalizing pos us with
  | nil =>
    cases us with
    | nil => rfl
    | cons u us => exact absurd (h.passed_of_nil hpos) h'.not_passed_length
  | cons t ts ih =>
    cases us with
    | nil => exact absurd (h'.passed_of_nil hpos) h.not_passed_length
    | cons u us =>
      have htoken := h.tokens t List.mem_cons_self
      have htoken' := h'.tokens u List.mem_cons_self
      have hstart := h.passed_of_cons.unique htoken.begins h'.passed_of_cons htoken'.begins
      obtain rfl := htoken.unique htoken' hstart
      rw [ih h.tail h'.tail htoken.inside]

end Accounts

/-! ## Lexing -/

theorem lexFrom_of_none (h : next? special pos s = none) : lexFrom special pos s = [] := by
  rw [lexFrom]
  split
  · rfl
  · rename_i hsome
    cases h.symm.trans hsome

theorem lexFrom_of_some {rest : Bytes} (h : next? special pos s = some (t, rest)) :
    lexFrom special pos s = t :: lexFrom special t.stop rest := by
  rw [lexFrom]
  split
  · rename_i hnone
    cases h.symm.trans hnone
  · rename_i hsome
    cases h.symm.trans hsome
    rfl

/-- The tokens that are found account for all bytes. -/
theorem accounts_lexFrom (special : Bool) (hpos : pos ≤ s.length) :
    Accounts special s pos (lexFrom special pos (s.drop pos)) := by
  induction hn : s.length - pos using Nat.strongRecOn generalizing pos with
  | _ n ih =>
    rcases next?_cases special hpos with ⟨hnone, hpassed⟩ | ⟨t, hsome, htoken, hpassed⟩
    · rw [lexFrom_of_none hnone]
      exact .nil hpassed
    · have hle := hpassed.le
      have hlt := htoken.nonempty
      have hinside := htoken.inside
      rw [lexFrom_of_some hsome]
      exact .cons htoken hpassed (ih _ (by omega) hinside rfl)

end Token

/-- **Tokens account for every byte**, with punctuation on its own or not. A string has its tokens and no
others, and the first 256 of them are remembered. So if fewer are remembered, all bytes are accounted
for: they are in the range of a token, or up to the space, or in a comment. -/
theorem tokens_account_for_bytes (special : Bool) (s : Bytes) (a : Activation) :
    ∃ all b, (∀ ts, Token.Accounts special s 0 ts ↔ ts = all) ∧
      Builtins.setTokens (Token.lex special s) a = .ok () b ∧
      b.machine.tokens = all.take 256 ∧
      (b.machine.tokens.length < 256 → Token.Accounts special s 0 b.machine.tokens) := by
  have haccounts := Token.accounts_lexFrom special (Nat.zero_le s.length)
  rw [List.drop_zero] at haccounts
  obtain ⟨b, hb, htokens⟩ := Builtins.exists_setTokens (Token.lex special s) a
  refine ⟨Token.lex special s, b, ?_, hb, htokens, ?_⟩
  · intro ts
    constructor
    · intro h
      exact haccounts.unique h (Nat.zero_le _)
    · rintro rfl
      exact haccounts
  · intro hfew
    rw [htokens] at hfew ⊢
    rw [Token.keep_of_length_lt hfew]
    exact haccounts

end QuakeVm
