import QuakeVm.Machine.Action

/-!
# Numbers and vectors

Builtins that compute with singles and vectors.
-/

namespace QuakeVm.Builtins

open QuakeVm.Action

/-- Apply a function to the first argument. -/
def unary (f : Float32 → Float32) : Action Unit := do returnSingle (f (← singleArgument 0))

/-- Apply a function to the first two arguments. -/
def binary (f : Float32 → Float32 → Float32) : Action Unit := do
  returnSingle (f (← singleArgument 0) (← singleArgument 1))

/-- The value without its fraction. -/
def withoutFraction (x : Float32) : Float32 := if x < 0 then x.ceil else x.floor

/-- The nearest whole number; a half goes away from zero. -/
def nearest (x : Float32) : Float32 :=
  if 0 < x then withoutFraction (x + 0.5) else withoutFraction (x - 0.5)

/-- A single in `[0, 1)` from a random number. -/
def unitSingle (n : Nat) : Float32 := Float32.ofNat (n % 0x1000000) / 16777216

/-- A random number. -/
def random : Action Unit := do
  let (n, seed) := stdNext (← world).seed
  modifyWorld fun w => { w with seed }
  returnSingle (unitSingle n)

/-- Combine all arguments. -/
def foldArguments (name : String) (f : Float32 → Float32 → Float32) : Action Unit := do
  match ← argumentsFrom singleArgument 0 with
  | [] =>
    caution s!"{name}: called without arguments"
    returnSingle 0
  | v :: rest => returnSingle (rest.foldl f v)

/-- Keep a value between two others. -/
def bound : Action Unit := do
  let low ← singleArgument 0
  let v ← singleArgument 1
  let high ← singleArgument 2
  returnSingle (Number.minSingle (Number.maxSingle v low) high)

/-- The length of a vector. -/
def vlen : Action Unit := do returnSingle (← vectorArgument 0).length

/-- The direction of a vector. -/
def normalize : Action Unit := do returnVector (← vectorArgument 0).normalize

/-- The compass direction of a vector. -/
def vectoyaw : Action Unit := do returnSingle (← vectorArgument 0).yaw

/-- The angles of a vector. -/
def vectoangles : Action Unit := do returnVector (← vectorArgument 0).angles

/-- A single as an integer. -/
def ftoi : Action Unit := do returnWord (Int32.ofInt (← integerArgument 0))

/-- An integer as a single. -/
def itof : Action Unit := do returnInteger (← wordArgument 0).toInt

end QuakeVm.Builtins
