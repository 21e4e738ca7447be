/-!
# Limits

The sizes that programs can observe: how large tables may grow and where the machine stops a
program that went astray.
-/

namespace QuakeVm.Limits

/-- The longest string a builtin hands to a program. -/
def text : Nat := 1023

/-- Strings that a program holds only for a while share this many slots. -/
def tempStrings : Nat := 16

/-- Builtin slots are numbered below this. -/
def builtins : Nat := 1024

/-- Slots below this are bound when a program is loaded. -/
def baseBuiltins : Nat := 79

/-- Calls may nest this deep. -/
def callDepth : Nat := 1024

/-- Words that the active functions may save together. -/
def savedLocals : Nat := 16384

/-- Statements that a call may execute unless the configuration says otherwise. -/
def statements : Nat := 0x1000000

/-- Entities of a program, the world included. -/
def entities : Nat := 8192

/-- Tokens that one tokenizer call keeps. -/
def tokens : Nat := 256

/-- Separators that one tokenizer call takes. -/
def separators : Nat := 7

/-- Searches that may be open at once. -/
def searches : Nat := 16

/-- String buffers that may exist at once. -/
def buffers : Nat := 64

/-- Strings in one buffer. -/
def bufferStrings : Nat := 0x100000

/-- Bytes that one read of a file asks for. -/
def readAhead : Nat := 1024

/-- Slots by which the table of open files grows. -/
def fileGrowth : Nat := 16

end QuakeVm.Limits
