import QuakeVm.Machine.Action

/-!
# Tokenizing

Builtins that cut a string into tokens and look at them afterwards.
-/

namespace QuakeVm.Builtins

open QuakeVm.Action

/-- Remember tokens. Only the first ones are kept. -/
def setTokens (ts : List Token) : Action Unit := do
  if Limits.tokens < ts.length then
    caution s!"tokenize: more than {Limits.tokens} tokens, ignoring the rest"
  let tokens := Token.keep ts
  modifyMachine fun m => { m with tokens }
  returnInteger tokens.length

/-- Cut a string at blanks, and at punctuation if `special` is set. -/
def tokenize (special : Bool) : Action Unit := do setTokens (Token.lex special (← textArgument 0))

/-- Cut a string at separators. -/
def tokenizebyseparator : Action Unit := do
  let s ← textArgument 0
  setTokens (Token.separate (← textsFrom 1) s)

/-- The token of an index. -/
def tokenArgument : Action (Option Token) := do
  let i ← integerArgument 0
  return Token.at? (← machine).tokens i

/-- The text of a token. -/
def argv : Action Unit := do returnText? ((← tokenArgument).map (·.text))

/-- Where a token begins or ends. -/
def argvIndex (f : Token → Nat) : Action Unit := do
  match ← tokenArgument with
  | some t => returnInteger (f t)
  | none => returnInteger (-1)

end QuakeVm.Builtins
