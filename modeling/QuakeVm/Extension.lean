import QuakeVm.Cvar
import QuakeVm.Role

/-!
# Extensions

An extension is a set of builtins with a name. All those listed here are complete. A variable
`pr_ext_` followed by the name in lower case hides one when it is zero.
-/

namespace QuakeVm.Extension

/-- The extensions in order. -/
def all : List String := [
  "DP_QC_ASINACOSATANATAN2TAN",
  "DP_QC_AUTOCVARS",
  "DP_QC_CRC16",
  "DP_QC_CVAR_DEFSTRING",
  "DP_QC_CVAR_STRING",
  "DP_QC_CVAR_TYPE",
  "DP_QC_ETOS",
  "DP_QC_FS_SEARCH",
  "DP_QC_MINMAXBOUND",
  "DP_QC_SINCOSSQRTPOW",
  "DP_QC_SPRINTF",
  "DP_QC_STRFTIME",
  "DP_QC_STRINGBUFFERS",
  "DP_QC_STRINGCOLORFUNCTIONS",
  "DP_QC_STRING_CASE_FUNCTIONS",
  "DP_QC_STRREPLACE",
  "DP_QC_TOKENIZEBYSEPARATOR",
  "DP_QC_TOKENIZE_CONSOLE",
  "DP_QC_URI_ESCAPE",
  "DP_SV_PRINT",
  "FRIK_FILE",
  "FTE_QC_CHECKCOMMAND",
  "FTE_QC_INTCONV",
  "FTE_STRINGS"]

/-- ASCII letters in lower case. -/
def lowered (s : String) : String := String.ofList (s.toList.map Char.toLower)

/-- ASCII letters in upper case. -/
def raised (s : String) : String := String.ofList (s.toList.map Char.toUpper)

/-- The variable that can hide an extension. -/
def switch (name : String) : String := "pr_ext_" ++ lowered name

/-- What there is to say about an extension. -/
inductive Answer where
  | unknown
  | hidden
  | available
  deriving Repr, DecidableEq

/-- The answer about an extension; the case of its name does not matter. -/
def query (c : Cvars) (name : String) : Answer :=
  if !all.any (lowered · == lowered name) then .unknown
  else if c.contains (switch name) && c.value (switch name) == 0 then .hidden
  else .available

/-- The record about a hidden extension. -/
def hiddenText (name : String) : String := s!"{name} is disabled by {switch name}"

/-- The variables with a switch for every extension. -/
def register (c : Cvars) : Cvars :=
  all.foldl (fun c name => c.register (switch name) "1" 0 "0 hides the extension from checkextension")
    c

/-- Whether a program of a role can use extensions at all. -/
def areEnabled (c : Cvars) (role : Role) : Bool :=
  !(role == .server && c.value "pr_checkextension" == 0)

/-- The extensions that a program of a role cannot use. -/
def disabled (c : Cvars) (role : Role) : List String :=
  if areEnabled c role then all.filter fun name => query c name != .available else all

end QuakeVm.Extension
