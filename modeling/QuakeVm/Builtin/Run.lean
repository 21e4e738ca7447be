import QuakeVm.Builtin.Console
import QuakeVm.Builtin.Entity
import QuakeVm.Builtin.Math
import QuakeVm.Builtin.Storage
import QuakeVm.Builtin.Strings
import QuakeVm.Builtin.Tokens

/-!
# Running a primitive
-/

namespace QuakeVm.Builtins

/-- What a primitive does. -/
def run : Primitive → Action Unit
  | .break_ => break_
  | .random => random
  | .normalize => normalize
  | .raise => raise
  | .vlen => vlen
  | .vectoyaw => vectoyaw
  | .spawn => spawn
  | .remove => remove
  | .dprint => dprint
  | .ftos => ftos
  | .vtos => vtos
  | .traceon => trace true
  | .traceoff => trace false
  | .eprint => eprint
  | .rint => unary nearest
  | .floor => unary Float32.floor
  | .ceil => unary Float32.ceil
  | .fabs => unary Float32.abs
  | .cvar => cvar
  | .localcmd => localcmd
  | .nextent => nextent
  | .vectoangles => vectoangles
  | .cvarSet => cvarSet
  | .sin => unary Float32.sin
  | .cos => unary Float32.cos
  | .sqrt => unary Float32.sqrt
  | .etos => etos
  | .stof => stof
  | .minimum => foldArguments "min" Number.minSingle
  | .maximum => foldArguments "max" Number.maxSingle
  | .bound => bound
  | .pow => binary Float32.pow
  | .checkextension => checkextension
  | .fopen => fopen
  | .fclose => fclose
  | .fgets => fgets
  | .fputs => fputs
  | .strlen => strlen
  | .strcat => strcat
  | .substring => substring
  | .stov => stov
  | .strzone => strzone
  | .strunzone => strunzone
  | .strstrofs => strstrofs
  | .str2chr => str2chr
  | .chr2str => chr2str
  | .strconv => strconv
  | .strpad => strpad
  | .infoadd => infoadd
  | .infoget => infoget
  | .strncmp => strncmp false
  | .strcasecmp => strcasecmp
  | .strncasecmp => strncmp true
  | .stoi => stoi
  | .itos => itos
  | .stoh => stoh
  | .htos => htos
  | .checkcommand => checkcommand
  | .print => print
  | .tokenize => tokenize true
  | .argv => argv
  | .searchBegin => searchBegin
  | .searchEnd => searchEnd
  | .searchGetsize => searchGetsize
  | .searchGetfilename => searchGetfilename
  | .cvarString => cvarText (·.text)
  | .bufCreate => bufCreate
  | .bufDel => bufDel
  | .bufGetsize => bufGetsize
  | .bufCopy => bufCopy
  | .bufSort => bufSort
  | .bufImplode => bufImplode
  | .bufstrGet => bufstrGet
  | .bufstrSet => bufstrSet
  | .bufstrAdd => bufstrAdd
  | .bufstrFree => bufstrFree
  | .asin => unary Float32.asin
  | .acos => unary Float32.acos
  | .atan => unary Float32.atan
  | .atan2 => binary Float32.atan2
  | .tan => unary Float32.tan
  | .strlennocol => strlennocol
  | .strdecolorize => mapText Markup.decolorize
  | .strftime => strftime
  | .tokenizebyseparator => tokenizebyseparator
  | .strtolower => mapText Bytes.lower
  | .strtoupper => mapText Bytes.upper
  | .cvarDefstring => cvarText (·.default)
  | .strreplace => strreplace false
  | .strireplace => strreplace true
  | .crc16 => crc16
  | .cvarType => cvarType
  | .uriEscape => mapText Uri.escape
  | .uriUnescape => mapText Uri.unescape
  | .tokenizeConsole => tokenize false
  | .argvStartIndex => argvIndex (·.start)
  | .argvEndIndex => argvIndex (·.stop)
  | .bufCvarlist => bufCvarlist
  | .bufLoadfile => bufLoadfile
  | .bufWritefile => bufWritefile
  | .sprintf => sprintf
  | .checkbuiltin => checkbuiltin
  | .builtinsupported => builtinsupported
  | .ftoi => ftoi
  | .itof => itof
  | .searchGetfilesize => searchGetfilesize
  | .searchGetfilemtime => searchGetfilemtime
  | .stringwidth => stringwidth

end QuakeVm.Builtins
