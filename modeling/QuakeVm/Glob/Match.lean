import QuakeVm.Glob.Pattern

/-!
# Matching names

A pattern matches a whole name, byte by byte. Each token is described by the ends it can reach: the
suffixes of the name that may be left once the token has matched at the front. Every suffix is
listed once, so a match takes at most the square of the length of the name for each token.

A character outside of ASCII is the sequence of its UTF-8 bytes, in a class as well, where a range
runs from the last byte of its first character to the first byte of its last.
-/

namespace QuakeVm.Glob

/-- How a pattern is matched. -/
structure Options where
  /-- `?` and `*` stop at a slash. -/
  separator : Bool := false
  /-- The case of ASCII letters does not matter. -/
  ignoreCase : Bool := false

/-- The slash. -/
def slash : UInt8 := 0x2f

/-- All suffixes of a string, the longest first. -/
def suffixes : Bytes → List Bytes
  | [] => [[]]
  | c :: rest => (c :: rest) :: suffixes rest

/-- The suffixes that begin behind a slash. -/
def behindSlash : Bytes → List Bytes
  | [] => []
  | c :: rest => if c == slash then rest :: behindSlash rest else behindSlash rest

/-- The suffixes that a run of bytes other than the slash can leave. -/
def withinComponent : Bytes → List Bytes
  | [] => [[]]
  | c :: rest => (c :: rest) :: if c == slash then [] else withinComponent rest

/-- Whether two bytes are the same under the options. -/
def Options.same (o : Options) (a b : UInt8) : Bool :=
  if o.ignoreCase then Bytes.lowerByte a == Bytes.lowerByte b else a == b

/-- What is left behind a literal string. -/
def Options.behindLiteral (o : Options) : Bytes → Bytes → List Bytes
  | [], s => [s]
  | _ :: _, [] => []
  | a :: as, b :: bs => if o.same a b then o.behindLiteral as bs else []

/-- The bytes between two ends. -/
def between (low high c : UInt8) : Bool := low ≤ c && c ≤ high

/-- Whether a byte lies in a range of characters. -/
def inRange (r : Char × Char) (c : UInt8) : Bool :=
  let first := Bytes.ofText r.1.toString
  let last := Bytes.ofText r.2.toString
  if r.1 == r.2 then first.contains c
  else
    first.dropLast.contains c || (last.drop 1).contains c ||
      between (first.getLast?.getD 0) (last.head?.getD 0) c

/-- Whether a byte lies in one of some ranges, in either case if the case does not matter. -/
def Options.inClass (o : Options) (ranges : List (Char × Char)) (c : UInt8) : Bool :=
  ranges.any fun r =>
    inRange r c || (o.ignoreCase && (inRange r (Bytes.lowerByte c) || inRange r (Bytes.upperByte c)))

/-- The same suffixes, each of them once. -/
def distinct (l : List Bytes) : List Bytes :=
  l.foldr (fun s seen => if seen.any (·.length == s.length) then seen else s :: seen) []

/-- Suffixes with one byte less, where that byte satisfies `p`. -/
def behindOne (p : UInt8 → Bool) : Bytes → List Bytes
  | [] => []
  | c :: rest => if p c then [rest] else []

mutual

/-- Whether a token matches the empty string only: a group without a branch that says more. -/
def Token.isVoid : Token → Bool
  | .alternatives branches => areVoid branches
  | _ => false

/-- Whether all tokens of a branch are void. -/
def isVoidBranch : List Token → Bool
  | [] => true
  | t :: rest => t.isVoid && isVoidBranch rest

/-- Whether all branches are void. -/
def areVoid : List (List Token) → Bool
  | [] => true
  | b :: rest => isVoidBranch b && areVoid rest

end

mutual

/-- What a token can leave of a string. -/
def Token.ends (o : Options) (s : Bytes) : Token → List Bytes
  | .literal c => o.behindLiteral (Bytes.ofText c.toString) s
  | .anyOne => behindOne (fun c => !(o.separator && c == slash)) s
  | .anyRun => if o.separator then withinComponent s else suffixes s
  | .directoriesFirst =>
    distinct (s :: (behindOne (· == slash) s ++ behindSlash s))
  | .directoriesLast => (behindOne (· == slash) s).flatMap suffixes
  | .directoriesBetween =>
    distinct ((behindOne (· == slash) s).flatMap fun rest => rest :: behindSlash rest)
  | .oneOf negated ranges => behindOne (fun c => o.inClass ranges c != negated) s
  | .alternatives branches => if areVoid branches then [s] else distinct (branchEnds o s branches)

/-- What the branches of a group can leave; void branches are no branches. -/
def branchEnds (o : Options) (s : Bytes) : List (List Token) → List Bytes
  | [] => []
  | b :: rest => (if isVoidBranch b then [] else tokensEnds o [s] b) ++ branchEnds o s rest

/-- What a sequence of tokens can leave of one of several strings. -/
def tokensEnds (o : Options) (starts : List Bytes) : List Token → List Bytes
  | [] => starts
  | t :: rest => tokensEnds o (distinct (starts.flatMap fun s => t.ends o s)) rest

end

/-- Whether a whole string matches. A pattern of directories alone matches everything. -/
def matchesTokens (o : Options) (ts : List Token) (s : Bytes) : Bool :=
  match ts with
  | [.directoriesFirst] => true
  | ts => (tokensEnds o [s] ts).any (·.isEmpty)

/-- A pattern with the options to match it by. -/
structure Matcher where
  options : Options
  tokens : List Token

/-- The matcher of a pattern. -/
def Matcher.ofPattern (o : Options) (pattern : String) : Except Error Matcher :=
  match read pattern with
  | .ok tokens => .ok ⟨o, tokens⟩
  | .error e => .error e

/-- Whether a name matches. -/
def Matcher.accepts (m : Matcher) (name : String) : Bool :=
  matchesTokens m.options m.tokens (Bytes.ofText name)

/-- The message about a pattern without a meaning. -/
def Error.report (e : Error) (pattern : String) : String :=
  "error parsing glob '" ++ pattern ++ "': " ++ e.message

end QuakeVm.Glob
