import QuakeVm.Bytes
import QuakeVm.Text.Lossy

/-!
# Info strings

An info string is a list of keys and values, each behind a backslash: `\name\ranger\team\red`. The
first backslash may be missing, a last key may lack its value, and an entry with an empty key is no
entry. Keys and values with a backslash or a double quote cannot be written.
-/

namespace QuakeVm.Info

/-- The separator of keys and values. -/
def separator : UInt8 := 0x5c

/-- Fields taken two by two; a last one without a partner has the empty value. -/
def pair : List Bytes → List (Bytes × Bytes)
  | [] => []
  | [key] => [(key, [])]
  | key :: value :: rest => (key, value) :: pair rest

/-- The string without one leading separator. -/
def body : Bytes → Bytes
  | [] => []
  | c :: rest => if c == separator then rest else c :: rest

/-- The entries of an info string, in order. -/
def entries (info : Bytes) : List (Bytes × Bytes) :=
  (pair (Bytes.split separator (body info))).filter (! ·.1.isEmpty)

/-- One entry as text. -/
def entryText (e : Bytes × Bytes) : Bytes := separator :: e.1 ++ separator :: e.2

/-- Whether a key or a value can be written. -/
def isLegal (s : Bytes) : Bool := s.all fun c => c != separator && c != 0x22

/-- The caution about a key or a value that cannot be written. -/
def illegalText (operation : String) (s : Bytes) : String :=
  s!"{operation}: illegal characters in \"{Text.lossy s}\""

/-- The caution about setting a key: of the key first, then of the value. -/
def caution? (key value : Bytes) : Option String :=
  if !isLegal key then some (illegalText "infoadd" key)
  else if !isLegal value then some (illegalText "infoadd" value)
  else none

/-- The value of the first entry with a key. -/
def get? (info key : Bytes) : Option Bytes :=
  ((entries info).find? (·.1 == key)).map (·.2)

/-- The string with `key` set to `value` behind all other entries; an empty value removes the key.
There is no such string if the key or the value cannot be written. -/
def set? (info key value : Bytes) : Option Bytes :=
  if isLegal key && isLegal value then
    some (((entries info).filter (·.1 != key)).flatMap entryText
      ++ if value.isEmpty then [] else entryText (key, value))
  else none

end QuakeVm.Info
