import QuakeVm.Bytes
import QuakeVm.Limits

/-!
# Tokens

A tokenizer cuts a string into tokens and remembers where each of them stood, quotes included. There
are three ways to cut: at blanks with punctuation characters on their own, at blanks alone, and at
given separators. The first two know double quotes and `//` comments.

Only `Limits.tokens` tokens are kept.

## Termination

* `skip` drops at least one byte of a comment before it goes on,
* `lexFrom` recurses on what is left after a token, which is shorter (`length_next?_lt`),
* `separateFrom` recurses behind a separator, as long as that is shorter.
-/

namespace QuakeVm

/-- A token: its text and its range in the source string. -/
structure Token where
  text : Bytes
  start : Nat
  stop : Nat
  deriving Repr, DecidableEq

namespace Token

/-- A byte that separates tokens: anything up to the space. -/
def isGap (c : UInt8) : Bool := c ≤ 0x20

/-- The characters `{`, `}`, `)`, `(`, the single quote and the colon. -/
def isPunctuation (c : UInt8) : Bool := [0x7b, 0x7d, 0x29, 0x28, 0x27, 0x3a].contains c

/-! ## Blanks and comments -/

/-- The string without its leading blanks and comments. -/
def skip (s : Bytes) : Bytes :=
  match _h : s.dropWhile isGap with
  | 0x2f :: 0x2f :: rest => skip (rest.dropWhile (· != 0x0a))
  | s => s
termination_by s.length
decreasing_by
  have h₁ := (List.dropWhile_sublist (l := s) isGap).length_le
  have h₂ := (List.dropWhile_sublist (l := rest) (· != 0x0a)).length_le
  rw [_h] at h₁
  simp only [List.length_cons] at h₁
  omega

theorem length_skip_le (s : Bytes) : (skip s).length ≤ s.length := by
  induction h : s.length using Nat.strongRecOn generalizing s with
  | _ n ih =>
    have h₁ := (List.dropWhile_sublist (l := s) isGap).length_le
    rw [skip]
    split
    · rename_i rest heq
      have h₂ := (List.dropWhile_sublist (l := rest) (· != 0x0a)).length_le
      rw [heq] at h₁
      simp only [List.length_cons] at h₁
      have := ih _ (by omega) (rest.dropWhile (· != 0x0a)) rfl
      omega
    · omega

/-! ## Blank-separated tokens -/

/-- Whether a byte ends a bare token. -/
def endsBare (special : Bool) (c : UInt8) : Bool := isGap c || (special && isPunctuation c)

/-- The next token of `s`, whose first byte stands at `pos`, and what follows it. -/
def next? (special : Bool) (pos : Nat) (s : Bytes) : Option (Token × Bytes) :=
  let start := pos + (s.length - (skip s).length)
  match skip s with
  | [] => none
  | c :: rest =>
    if c == 0x22 then
      let text := rest.takeWhile (· != 0x22)
      let after := rest.dropWhile (· != 0x22)
      some (⟨text, start, start + 1 + text.length + min 1 after.length⟩, after.drop 1)
    else if special && isPunctuation c then some (⟨[c], start, start + 1⟩, rest)
    else
      let text := c :: rest.takeWhile (! endsBare special ·)
      some (⟨text, start, start + text.length⟩, rest.dropWhile (! endsBare special ·))

theorem length_next?_lt {special : Bool} {pos : Nat} {s rest : Bytes} {t : Token}
    (h : next? special pos s = some (t, rest)) : rest.length < s.length := by
  have hs := length_skip_le s
  unfold next? at h
  split at h
  · simp at h
  · rename_i c tail heq
    rw [heq, List.length_cons] at hs
    have h₁ := (List.dropWhile_sublist (l := tail) (· != 0x22)).length_le
    have h₂ := (List.dropWhile_sublist (l := tail) (! endsBare special ·)).length_le
    repeat' split at h
    all_goals simp only [Option.some.injEq, Prod.mk.injEq] at h
    all_goals rw [← h.2]
    all_goals try simp only [List.length_drop]
    all_goals omega

/-- All tokens of `s`, whose first byte stands at `pos`. -/
def lexFrom (special : Bool) (pos : Nat) (s : Bytes) : List Token :=
  match _h : next? special pos s with
  | none => []
  | some (t, rest) => t :: lexFrom special t.stop rest
termination_by s.length
decreasing_by exact length_next?_lt _h

/-- All tokens of a string; `special` makes punctuation characters tokens of their own. -/
def lex (special : Bool) (s : Bytes) : List Token := lexFrom special 0 s

/-! ## Separated fields -/

/-- The separator at the front of a string: the first one of the list that fits. -/
def separatorAt? (seps : List Bytes) (s : Bytes) : Option Bytes := seps.find? (·.isPrefixOf s)

/-- The bytes before the first separator, with that separator and what follows it. -/
def field (seps : List Bytes) : Bytes → Bytes × Option (Bytes × Bytes)
  | [] => ([], none)
  | c :: rest =>
    match separatorAt? seps (c :: rest) with
    | some sep => ([], some (sep, (c :: rest).drop sep.length))
    | none =>
      let f := field seps rest
      (c :: f.1, f.2)

/-- The fields of `s`, whose first byte stands at `pos`, empty ones included. An empty separator
gets no further and ends the list. -/
def separateFrom (seps : List Bytes) (pos : Nat) (s : Bytes) : List Token :=
  let f := field seps s
  let t : Token := ⟨f.1, pos, pos + f.1.length⟩
  match f.2 with
  | none => [t]
  | some (sep, rest) =>
    if _h : rest.length < s.length then t :: separateFrom seps (t.stop + sep.length) rest else [t]
termination_by s.length

/-- The separators that count: the first `Limits.separators` that are not empty. -/
def usableSeparators (seps : List Bytes) : List Bytes :=
  (seps.filter (! ·.isEmpty)).take Limits.separators

/-- The fields of a string between separators. -/
def separate (seps : List Bytes) (s : Bytes) : List Token :=
  separateFrom (usableSeparators seps) 0 s

/-! ## Kept tokens -/

/-- The tokens that are kept. -/
def keep (ts : List Token) : List Token := ts.take Limits.tokens

/-- Token `n`, counted from the end if `n` is negative. -/
def at? (ts : List Token) (n : Int) : Option Token :=
  let n := if n < 0 then n + ts.length else n
  if n < 0 then none else ts[n.toNat]?

end Token

end QuakeVm
