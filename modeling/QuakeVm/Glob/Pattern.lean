import QuakeVm.Bytes

/-!
# Glob patterns

A pattern is read character by character:

* `?` is one byte and `*` any run of bytes,
* `[...]` is one byte of a class, negated by a leading `!` or `^`; a `]` or `-` in first place and a
  `-` in last place are literal, and there are no escapes inside,
* `{a,b}` is one of several alternatives, which nest; a comma outside of braces is literal,
* a backslash makes the next character literal,
* `**` as a whole component stands for any number of directories; elsewhere it is two `*`.

A pattern that does not close its brackets or braces has no meaning, and neither has a range that
runs backwards.
-/

namespace QuakeVm.Glob

/-- A piece of a pattern. -/
inductive Token where
  | literal (c : Char)
  | anyOne
  | anyRun
  | directoriesFirst
  | directoriesLast
  | directoriesBetween
  | oneOf (negated : Bool) (ranges : List (Char × Char))
  | alternatives (branches : List (List Token))
  deriving Repr

/-- Why a pattern has no meaning. -/
inductive Error where
  | unclosedClass
  | invalidRange (first last : Char)
  | unopenedAlternatives
  | unclosedAlternatives
  | danglingEscape
  deriving Repr, DecidableEq

/-- The wording of an error. -/
def Error.message : Error → String
  | .unclosedClass => "unclosed character class; missing ']'"
  | .invalidRange first last =>
    "invalid range; '" ++ first.toString ++ "' > '" ++ last.toString ++ "'"
  | .unopenedAlternatives =>
    "unopened alternate group; missing '\x7b' (maybe escape '\x7d' with '[\x7d]'?)"
  | .unclosedAlternatives =>
    "unclosed alternate group; missing '\x7d' (maybe escape '\x7b' with '[\x7b]'?)"
  | .danglingEscape => "dangling '\\'"

/-! ## Classes -/

/-- Where the reader of a class stands: ranges so far, last first, and whether a `-` is open. -/
structure ClassState where
  first : Bool := true
  open_ : Bool := false
  ranges : List (Char × Char) := []

/-- The last range extended to `c`, or a range of `c` alone if no `-` is open. -/
def ClassState.add (st : ClassState) (c : Char) : Except Error ClassState :=
  match st.open_, st.ranges with
  | true, (low, _) :: rest =>
    if c < low then .error (.invalidRange low c)
    else .ok { first := false, open_ := false, ranges := (low, c) :: rest }
  | _, ranges => .ok { first := false, open_ := false, ranges := (c, c) :: ranges }

/-- The ranges of a class in order; an open `-` is literal. -/
def ClassState.finish (st : ClassState) : List (Char × Char) :=
  (if st.open_ then ('-', '-') :: st.ranges else st.ranges).reverse

/-- The rest of a class behind its `[` and negation: its ranges and what follows the `]`. -/
def classBody (st : ClassState) : List Char → Except Error (List (Char × Char) × List Char)
  | [] => .error .unclosedClass
  | c :: rest =>
    if c == ']' && !st.first then .ok (st.finish, rest)
    else if c == '-' && !st.first && !st.open_ then classBody { st with open_ := true } rest
    else
      match st.add c with
      | .error e => .error e
      | .ok st => classBody st rest

theorem length_classBody_lt {st : ClassState} {s rest : List Char} {ranges : List (Char × Char)}
    (h : classBody st s = .ok (ranges, rest)) : rest.length < s.length := by
  induction s generalizing st with
  | nil => simp [classBody] at h
  | cons c tail ih =>
    unfold classBody at h
    simp only [List.length_cons]
    split at h
    · simp only [Except.ok.injEq, Prod.mk.injEq] at h
      rw [h.2]
      omega
    · split at h
      · exact Nat.lt_succ_of_lt (ih h)
      · split at h
        · simp at h
        · exact Nat.lt_succ_of_lt (ih h)

/-- A class behind its `[`. -/
def classToken (s : List Char) : Except Error (Token × List Char) :=
  match s with
  | '!' :: rest | '^' :: rest =>
    match classBody {} rest with
    | .ok (ranges, rest) => .ok (.oneOf true ranges, rest)
    | .error e => .error e
  | s =>
    match classBody {} s with
    | .ok (ranges, rest) => .ok (.oneOf false ranges, rest)
    | .error e => .error e

theorem length_classToken_lt {s rest : List Char} {t : Token}
    (h : classToken s = .ok (t, rest)) : rest.length < s.length := by
  unfold classToken at h
  split at h
  · rename_i tail
    split at h
    · rename_i heq
      simp only [Except.ok.injEq, Prod.mk.injEq] at h
      exact h.2 ▸ Nat.lt_succ_of_lt (length_classBody_lt heq)
    · simp at h
  · rename_i tail
    split at h
    · rename_i heq
      simp only [Except.ok.injEq, Prod.mk.injEq] at h
      exact h.2 ▸ Nat.lt_succ_of_lt (length_classBody_lt heq)
    · simp at h
  · split at h
    · rename_i heq
      simp only [Except.ok.injEq, Prod.mk.injEq] at h
      exact h.2 ▸ length_classBody_lt heq
    · simp at h

/-! ## Reading a pattern -/

/-- An open group: the branch around it and its finished branches, both last first. -/
structure Group where
  outer : List Token
  branches : List (List Token)

/-- Where the reader stands: the tokens of the current branch, last first, the open groups, and the
previous character. -/
structure State where
  branch : List Token := []
  groups : List Group := []
  previous : Option Char := none

/-- The state after one more token. -/
def State.push (st : State) (t : Token) (previous : Char) : State :=
  { st with branch := t :: st.branch, previous := some previous }

/-- Whether the reader is inside braces. -/
def State.inGroup (st : State) : Bool := !st.groups.isEmpty

/-- What `**` means where it stands. -/
inductive DoubleStar where
  | runs
  | first
  | last
  | between

/--
The meaning of `**` after what the state has read and before `next`. In front of a branch it must be
followed by a slash or by the end; behind something it must follow a slash (or, in braces, a brace
or a comma) and be followed by a slash, by the end, or by the end of its branch.
-/
def State.doubleStar (st : State) (next : Option Char) : DoubleStar :=
  if st.branch.isEmpty then
    if next == none || next == some '/' then .first else .runs
  else if st.previous != some '/' &&
      (!st.inGroup || (st.previous != some ',' && st.previous != some '\x7b')) then .runs
  else if next == none || (st.inGroup && (next == some ',' || next == some '\x7d')) then .last
  else if next == some '/' then .between
  else .runs

/-- A directory wildcard in place of the token before it; one that is there already stays. -/
def replaceLast (t : Token) : List Token → List Token
  | .directoriesFirst :: rest => .directoriesFirst :: rest
  | .directoriesLast :: rest => .directoriesLast :: rest
  | _ :: rest => t :: rest
  | [] => [t]

/-- The tokens of a pattern from a state on. -/
def readFrom (st : State) (s : List Char) : Except Error (List Token) :=
  match s with
  | [] => if st.inGroup then .error .unclosedAlternatives else .ok st.branch.reverse
  | '?' :: rest => readFrom (st.push .anyOne '?') rest
  | '*' :: '*' :: rest =>
    match st.doubleStar rest.head? with
    | .runs => readFrom ((st.push .anyRun '*').push .anyRun '*') rest
    | .first => readFrom (st.push .directoriesFirst '/') (rest.drop 1)
    | .last =>
      readFrom { st with branch := replaceLast .directoriesLast st.branch, previous := some '*' }
        rest
    | .between =>
      readFrom
        { st with branch := replaceLast .directoriesBetween st.branch, previous := some '/' }
        (rest.drop 1)
  | '*' :: rest => readFrom (st.push .anyRun '*') rest
  | '[' :: rest =>
    match _h : classToken rest with
    | .ok (t, rest') => readFrom (st.push t ']') rest'
    | .error e => .error e
  | '\x7b' :: rest =>
    readFrom { branch := [], groups := ⟨st.branch, []⟩ :: st.groups, previous := some '\x7b' } rest
  | '\x7d' :: rest =>
    match st.groups with
    | [] => .error .unopenedAlternatives
    | g :: groups =>
      let branches := (st.branch.reverse :: g.branches).reverse
      readFrom { branch := .alternatives branches :: g.outer, groups, previous := some '\x7d' } rest
  | ',' :: rest =>
    match st.groups with
    | [] => readFrom (st.push (.literal ',') ',') rest
    | g :: groups =>
      readFrom
        { branch := []
          groups := { g with branches := st.branch.reverse :: g.branches } :: groups
          previous := some ',' } rest
  | '\\' :: rest =>
    match rest with
    | [] => .error .danglingEscape
    | c :: rest => readFrom (st.push (.literal c) c) rest
  | c :: rest => readFrom (st.push (.literal c) c) rest
termination_by s.length
decreasing_by
  all_goals try simp only [List.length_cons, List.length_drop]
  all_goals try omega
  have := length_classToken_lt _h
  omega

/-- The tokens of a pattern. -/
def read (pattern : String) : Except Error (List Token) := readFrom {} pattern.toList

end QuakeVm.Glob
