/-!
# Primitives

The builtin functions that the machine implements, by name. What each of them does is said where it
is run; a slot of the dispatch table holds one of these names.
-/

namespace QuakeVm

/-- An implemented builtin function. -/
inductive Primitive where
  | break_ | random | normalize | raise | vlen | vectoyaw | spawn | remove | dprint | ftos | vtos
  | traceon | traceoff | eprint | rint | floor | ceil | fabs | cvar | localcmd | nextent
  | vectoangles | cvarSet | sin | cos | sqrt | etos | stof | minimum | maximum | bound | pow
  | checkextension | fopen | fclose | fgets | fputs | strlen | strcat | substring | stov | strzone
  | strunzone | strstrofs | str2chr | chr2str | strconv | strpad | infoadd | infoget | strncmp
  | strcasecmp | strncasecmp | stoi | itos | stoh | htos | checkcommand | print | tokenize | argv
  | searchBegin | searchEnd | searchGetsize | searchGetfilename | cvarString | bufCreate | bufDel
  | bufGetsize | bufCopy | bufSort | bufImplode | bufstrGet | bufstrSet | bufstrAdd | bufstrFree
  | asin | acos | atan | atan2 | tan | strlennocol | strdecolorize | strftime | tokenizebyseparator
  | strtolower | strtoupper | cvarDefstring | strreplace | strireplace | crc16 | cvarType
  | uriEscape | uriUnescape | tokenizeConsole | argvStartIndex | argvEndIndex | bufCvarlist
  | bufLoadfile | bufWritefile | sprintf | checkbuiltin | builtinsupported | ftoi | itof
  | searchGetfilesize | searchGetfilemtime | stringwidth
  deriving Repr, DecidableEq

end QuakeVm
