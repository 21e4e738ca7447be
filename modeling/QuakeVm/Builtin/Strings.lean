import QuakeVm.Calendar
import QuakeVm.Format.Render
import QuakeVm.Machine.Action
import QuakeVm.Text.Checksum
import QuakeVm.Text.Edit
import QuakeVm.Text.Info
import QuakeVm.Text.Markup
import QuakeVm.Text.Uri

/-!
# Strings

Builtins that make, take apart and convert strings.
-/

namespace QuakeVm.Builtins

open QuakeVm.Action

/-- Return a text. -/
def returnString (s : String) : Action Unit := returnText (Bytes.ofText s)

/-- Apply a function to the first argument. -/
def mapText (f : Bytes → Bytes) : Action Unit := do returnText (f (← textArgument 0))

/-! ## Conversions -/

/-- A number as a string. -/
def ftos : Action Unit := do returnString (Number.shortText (← singleArgument 0))

/-- A vector as a string. -/
def vtos : Action Unit := do returnString (← vectorArgument 0).text

/-- An entity as a string. -/
def etos : Action Unit := do
  let e := (← wordArgument 0).toInt
  returnString s!"entity {e}"

/-- The number a string begins with. -/
def stof : Action Unit := do returnSingle (Number.scanSingle (← textArgument 0))

/-- The vector in a string. -/
def stov : Action Unit := do returnVector (Vec3.scan (← textArgument 0))

/-- The integer a string begins with. -/
def stoi : Action Unit := do returnWord (Number.scanInt (← textArgument 0))

/-- An integer as a string. -/
def itos : Action Unit := do returnText (Number.signedDecimal (← wordArgument 0).toInt)

/-- The hexadecimal number a string begins with. -/
def stoh : Action Unit := do returnWord (Number.scanHex (← textArgument 0))

/-- An integer as a hexadecimal number. -/
def htos : Action Unit := do
  returnText (Number.numeral 16 false (← wordArgument 0).toUInt32.toNat)

/-! ## Parts -/

/-- The length of a string. -/
def strlen : Action Unit := do returnInteger (← textArgument 0).length

/-- All arguments put together. -/
def strcat : Action Unit := do returnText (← textFrom 0)

/-- A part of a string. -/
def substring : Action Unit := do
  let s ← textArgument 0
  returnText (Edit.substring s (← integerArgument 1) (← integerArgument 2))

/-- A lasting string of all arguments. -/
def strzone : Action Unit := do returnWord (Int32.ofInt (← zone (← textsFrom 0)))

/-- Release a lasting string. -/
def strunzone : Action Unit := do discard (unzone (← wordArgument 0).toInt)

/-- A position given by an argument, if there is one; zero otherwise. -/
def optionalSize (n : Nat) : Action Nat := do
  if n < (← argumentCount) then return Number.toSize (← singleArgument n) else return 0

/-- Where a string occurs in another one. -/
def strstrofs : Action Unit := do
  let hay ← textArgument 0
  let needle ← textArgument 1
  match Bytes.indexFrom? needle hay (← optionalSize 2) with
  | some i => returnInteger i
  | none => returnInteger (-1)

/-- The character at an index, which counts from the end if it is negative. -/
def str2chr : Action Unit := do
  let s ← textArgument 0
  let i := Number.toInt64 (← singleArgument 1)
  let i := if i < 0 then i + s.length else i
  returnInteger (if i < 0 then 0 else (s.getD i.toNat 0).toNat)

/-- An argument as a character. -/
def characterArgument (n : Nat) : Action UInt8 := do
  return ((← integerArgument n) % 256).toNat.toUInt8

/-- A string of characters. -/
def chr2str : Action Unit := do returnText (← argumentsFrom characterArgument 0)

/-- Change case and color. -/
def strconv : Action Unit := do
  let caseMode ← integerArgument 0
  let redAlpha ← integerArgument 1
  let redChars ← integerArgument 2
  returnText (Edit.convert caseMode redAlpha redChars (← textFrom 3))

/-- Fill up with spaces. -/
def strpad : Action Unit := do
  let pad ← integerArgument 0
  returnText (Edit.pad pad (← textFrom 1))

/-! ## Comparing and replacing -/

/-- Compare two strings up to a length, from the positions that optional arguments give. -/
def strncmp (fold : Bool) : Action Unit := do
  let a ← textArgument 0
  let b ← textArgument 1
  let n := Number.toSize (← singleArgument 2)
  let a := a.drop (← optionalSize 3)
  let b := b.drop (← optionalSize 4)
  returnInteger (Edit.compare a b (some n) fold)

/-- Compare two strings without regard to case. -/
def strcasecmp : Action Unit := do
  let a ← textArgument 0
  let b ← textArgument 1
  returnInteger (Edit.compare a b none true)

/-- Replace a string in another one. -/
def strreplace (fold : Bool) : Action Unit := do
  let search ← textArgument 0
  let replacement ← textArgument 1
  let subject ← textArgument 2
  returnText (Edit.replace search replacement subject fold)

/-! ## Info strings -/

/-- Set a key of an info string. -/
def infoadd : Action Unit := do
  let info ← textArgument 0
  let key ← textArgument 1
  let value ← textFrom 2
  if let some note := Info.caution? key value then caution note
  returnText ((Info.set? info key value).getD info)

/-- The value of a key of an info string. -/
def infoget : Action Unit := do
  let info ← textArgument 0
  let key ← textArgument 1
  if Info.isLegal key then returnText? (Info.get? info key)
  else
    caution (Info.illegalText "infoget" key)
    returnNull

/-! ## Checksums, markup, time -/

/-- The checksum of a string. -/
def crc16 : Action Unit := do
  let fold ← flagArgument 0
  let s ← textFrom 1
  returnInteger (Checksum.crc16 (if fold then Bytes.lower s else s)).toNat

/-- The number of visible characters. -/
def strlennocol : Action Unit := do returnInteger (Markup.visibleLength (← textArgument 0))

/-- The width of a text in a font, whose width is eight unless an argument says otherwise. -/
def stringwidth : Action Unit := do
  let s ← textArgument 0
  let colors ← flagArgument 1
  let size ← vectorArgument 2
  let width := if 2 < (← argumentCount) then size.x else 0
  let n := if colors then Markup.visibleLength s else s.length
  returnSingle (Number.single n * if width == 0 then 8 else width)

/-- The time as a text. -/
def strftime : Action Unit := do
  let here ← flagArgument 0
  let format := Text.lossy (← textFrom 1)
  match Calendar.format? (if here then .here else .universal) (← world).now format with
  | some s => returnString s
  | none =>
    caution s!"strftime: bad format \"{format}\""
    returnNull

/-! ## Formats -/

/-- The arguments behind the format. Those that were not passed read as nothing. -/
def formatArguments (m : Machine) : Format.Arguments :=
  let count := m.argumentCount - 1
  { float := fun n => if n < count then m.registers.float (parameter (n + 1)) else 0
    int := fun n => if n < count then m.registers.get (parameter (n + 1)) else 0
    vector := fun n => if n < count then m.registers.vector (parameter (n + 1)) else .zero
    string := fun n =>
      if n < count then m.strings.get (m.registers.get (parameter (n + 1))).toInt else [] }

/-- Log what rendering reports. -/
def recordNotes : List Format.Note → Action Unit
  | [] => pure ()
  | .stringRead n :: rest => do
    if n < (← argumentCount) - 1 then discard (textArgument (n + 1))
    recordNotes rest
  | note :: rest => do
    if let some text := note.caution? then caution text
    recordNotes rest

/-- A formatted string. -/
def sprintf : Action Unit := do
  let format ← textArgument 0
  let (s, notes) := Format.render format (formatArguments (← machine))
  recordNotes notes
  returnText s

end QuakeVm.Builtins
