import QuakeVm.Builtin.Catalog

/-!
# The builtin functions

Every builtin that programs can declare, with the number under which other engines know it, or zero.
-/

namespace QuakeVm

/-- The builtin functions in the order in which numbers are assigned. -/
def builtinEntries : List Entry := [
  { name := "setmodel", provider := .nobody, documented := 3,
    signature := "void(entity e, string m)",
    description := "Set the model of an entity." },
  { name := "setsize", provider := .nobody, documented := 4,
    signature := "void(entity e, vector min, vector max)",
    description := "Set the bounding box of an entity." },
  { name := "break", provider := .both .break_, documented := 6,
    signature := "void()",
    description := "Debugger trap, only reported.",
    stub := true },
  { name := "random", provider := .both .random, documented := 7,
    signature := "float()",
    description := "Random number in [0, 1)." },
  { name := "sound", provider := .nobody, documented := 8,
    signature := "void(entity e, float chan, string samp, float vol, float atten)",
    description := "Start a sound." },
  { name := "normalize", provider := .both .normalize, documented := 9,
    signature := "vector(vector v)" },
  { name := "error", provider := .both .raise, documented := 10,
    signature := "void(string e, ...)",
    description := "Abort the program with a message." },
  { name := "vlen", provider := .both .vlen, documented := 12,
    signature := "float(vector v)" },
  { name := "vectoyaw", provider := .both .vectoyaw, documented := 13,
    signature := "float(vector v)" },
  { name := "spawn", provider := .both .spawn, documented := 14,
    signature := "entity()",
    description := "Allocate a cleared entity." },
  { name := "remove", provider := .both .remove, documented := 15,
    signature := "void(entity e)",
    description := "Free an entity." },
  { name := "traceline", provider := .nobody, documented := 16,
    signature := "void(vector v1, vector v2, float nomonsters, entity forent)",
    description := "Trace a line through the world." },
  { name := "precache_sound", provider := .nobody, documented := 19,
    signature := "string(string s)" },
  { name := "precache_model", provider := .nobody, documented := 20,
    signature := "string(string s)" },
  { name := "dprint", provider := .both .dprint, documented := 25,
    signature := "void(string s, ...)",
    description := "Print when developer is set." },
  { name := "ftos", provider := .both .ftos, documented := 26,
    signature := "string(float f)" },
  { name := "vtos", provider := .both .vtos, documented := 27,
    signature := "string(vector v)" },
  { name := "traceon", provider := .both .traceon, documented := 29,
    signature := "void()",
    description := "Log every executed statement." },
  { name := "traceoff", provider := .both .traceoff, documented := 30,
    signature := "void()" },
  { name := "eprint", provider := .both .eprint, documented := 31,
    signature := "void(entity e)",
    description := "Print the fields of an entity." },
  { name := "rint", provider := .both .rint, documented := 36,
    signature := "float(float v)",
    description := "Round to the nearest integer." },
  { name := "floor", provider := .both .floor, documented := 37,
    signature := "float(float v)" },
  { name := "ceil", provider := .both .ceil, documented := 38,
    signature := "float(float v)" },
  { name := "fabs", provider := .both .fabs, documented := 43,
    signature := "float(float f)" },
  { name := "cvar", provider := .both .cvar, documented := 45,
    signature := "float(string s)",
    description := "Numeric value of a cvar." },
  { name := "localcmd", provider := .server .localcmd, documented := 46,
    signature := "void(string s, ...)",
    description := "Queue console text for the host.",
    stub := true },
  { name := "nextent", provider := .both .nextent, documented := 47,
    signature := "entity(entity e)",
    description := "Next live entity, world when done." },
  { name := "particle", provider := .nobody, documented := 48,
    signature := "void(vector o, vector d, float color, float count)" },
  { name := "vectoangles", provider := .both .vectoangles, documented := 51,
    signature := "vector(vector v)" },
  { name := "cvar_set", provider := .both .cvarSet, documented := 72,
    signature := "void(string var, string val)" },
  { name := "sin", provider := .both .sin, documented := 60,
    signature := "float(float a)" },
  { name := "cos", provider := .both .cos, documented := 61,
    signature := "float(float a)" },
  { name := "sqrt", provider := .both .sqrt, documented := 62,
    signature := "float(float a)" },
  { name := "etos", provider := .both .etos, documented := 65,
    signature := "string(entity ent)" },
  { name := "stof", provider := .both .stof, documented := 81,
    signature := "float(string s)" },
  { name := "min", provider := .both .minimum, documented := 94,
    signature := "float(float a, float b, ...)" },
  { name := "max", provider := .both .maximum, documented := 95,
    signature := "float(float a, float b, ...)" },
  { name := "bound", provider := .both .bound, documented := 96,
    signature := "float(float minimum, float val, float maximum)" },
  { name := "pow", provider := .both .pow, documented := 97,
    signature := "float(float a, float n)" },
  { name := "checkextension", provider := .both .checkextension, documented := 99,
    signature := "float(string s)",
    description := "Whether an extension is supported." },
  { name := "fopen", provider := .both .fopen, documented := 110,
    signature := "float(string filename, float mode)",
    description := "Open a file in the data directory." },
  { name := "fclose", provider := .both .fclose, documented := 111,
    signature := "void(float fhandle)" },
  { name := "fgets", provider := .both .fgets, documented := 112,
    signature := "string(float fhandle)",
    description := "Next line, null at end of file." },
  { name := "fputs", provider := .both .fputs, documented := 113,
    signature := "void(float fhandle, string s, ...)" },
  { name := "strlen", provider := .both .strlen, documented := 114,
    signature := "float(string s)" },
  { name := "strcat", provider := .both .strcat, documented := 115,
    signature := "string(string s1, ...)" },
  { name := "substring", provider := .both .substring, documented := 116,
    signature := "string(string s, float start, float length)" },
  { name := "stov", provider := .both .stov, documented := 117,
    signature := "vector(string s)" },
  { name := "strzone", provider := .both .strzone, documented := 118,
    signature := "string(string s, ...)",
    description := "Copy into a persistent string." },
  { name := "strunzone", provider := .both .strunzone, documented := 119,
    signature := "void(string s)" },
  { name := "strstrofs", provider := .both .strstrofs, documented := 221,
    signature := "float(string str, string sub, float startpos)" },
  { name := "str2chr", provider := .both .str2chr, documented := 222,
    signature := "float(string str, float index)" },
  { name := "chr2str", provider := .both .chr2str, documented := 223,
    signature := "string(float c, ...)" },
  { name := "strconv", provider := .both .strconv, documented := 224,
    signature := "string(float ccase, float redalpha, float redchars, string str, ...)" },
  { name := "strpad", provider := .both .strpad, documented := 225,
    signature := "string(float pad, string str1, ...)" },
  { name := "infoadd", provider := .both .infoadd, documented := 226,
    signature := "string(string info, string key, string value, ...)" },
  { name := "infoget", provider := .both .infoget, documented := 227,
    signature := "string(string info, string key)" },
  { name := "strncmp", provider := .both .strncmp, documented := 228,
    signature := "float(string s1, string s2, float len, optional float s1ofs, optional float s2ofs)" },
  { name := "strcasecmp", provider := .both .strcasecmp, documented := 229,
    signature := "float(string s1, string s2)" },
  { name := "strncasecmp", provider := .both .strncasecmp, documented := 230,
    signature := "float(string s1, string s2, float len, optional float s1ofs, optional float s2ofs)" },
  { name := "stoi", provider := .both .stoi, documented := 259,
    signature := "int(string)" },
  { name := "itos", provider := .both .itos, documented := 260,
    signature := "string(int)" },
  { name := "stoh", provider := .both .stoh, documented := 261,
    signature := "int(string)" },
  { name := "htos", provider := .both .htos, documented := 262,
    signature := "string(int)" },
  { name := "checkcommand", provider := .both .checkcommand, documented := 294,
    signature := "float(string name)",
    description := "1 for a command, 2 for a cvar." },
  { name := "print", provider := .both .print, documented := 339,
    signature := "void(string s, ...)",
    description := "Print to the console." },
  { name := "tokenize", provider := .both .tokenize, documented := 441,
    signature := "float(string s)" },
  { name := "argv", provider := .both .argv, documented := 442,
    signature := "string(float n)" },
  { name := "search_begin", provider := .both .searchBegin, documented := 444,
    signature := "float(string pattern, float caseinsensitive, float quiet)" },
  { name := "search_end", provider := .both .searchEnd, documented := 445,
    signature := "void(float handle)" },
  { name := "search_getsize", provider := .both .searchGetsize, documented := 446,
    signature := "float(float handle)" },
  { name := "search_getfilename", provider := .both .searchGetfilename, documented := 447,
    signature := "string(float handle, float num)" },
  { name := "cvar_string", provider := .both .cvarString, documented := 448,
    signature := "string(string varname)" },
  { name := "buf_create", provider := .both .bufCreate, documented := 460,
    signature := "float()" },
  { name := "buf_del", provider := .both .bufDel, documented := 461,
    signature := "void(float bufhandle)" },
  { name := "buf_getsize", provider := .both .bufGetsize, documented := 462,
    signature := "float(float bufhandle)" },
  { name := "buf_copy", provider := .both .bufCopy, documented := 463,
    signature := "void(float bufhandle_from, float bufhandle_to)" },
  { name := "buf_sort", provider := .both .bufSort, documented := 464,
    signature := "void(float bufhandle, float sortprefixlen, float backward)" },
  { name := "buf_implode", provider := .both .bufImplode, documented := 465,
    signature := "string(float bufhandle, string glue)" },
  { name := "bufstr_get", provider := .both .bufstrGet, documented := 466,
    signature := "string(float bufhandle, float string_index)" },
  { name := "bufstr_set", provider := .both .bufstrSet, documented := 467,
    signature := "void(float bufhandle, float string_index, string str)" },
  { name := "bufstr_add", provider := .both .bufstrAdd, documented := 468,
    signature := "float(float bufhandle, string str, float order)" },
  { name := "bufstr_free", provider := .both .bufstrFree, documented := 469,
    signature := "void(float bufhandle, float string_index)" },
  { name := "asin", provider := .both .asin, documented := 471,
    signature := "float(float s)" },
  { name := "acos", provider := .both .acos, documented := 472,
    signature := "float(float c)" },
  { name := "atan", provider := .both .atan, documented := 473,
    signature := "float(float t)" },
  { name := "atan2", provider := .both .atan2, documented := 474,
    signature := "float(float c, float s)" },
  { name := "tan", provider := .both .tan, documented := 475,
    signature := "float(float a)" },
  { name := "strlennocol", provider := .both .strlennocol, documented := 476,
    signature := "float(string s)",
    description := "Length without color codes." },
  { name := "strdecolorize", provider := .both .strdecolorize, documented := 477,
    signature := "string(string s)" },
  { name := "strftime", provider := .both .strftime, documented := 478,
    signature := "string(float uselocaltime, string format, ...)" },
  { name := "tokenizebyseparator", provider := .both .tokenizebyseparator, documented := 479,
    signature := "float(string s, string separator1, ...)" },
  { name := "strtolower", provider := .both .strtolower, documented := 480,
    signature := "string(string s)" },
  { name := "strtoupper", provider := .both .strtoupper, documented := 481,
    signature := "string(string s)" },
  { name := "cvar_defstring", provider := .both .cvarDefstring, documented := 482,
    signature := "string(string s)" },
  { name := "strreplace", provider := .both .strreplace, documented := 484,
    signature := "string(string search, string replace, string subject)" },
  { name := "strireplace", provider := .both .strireplace, documented := 485,
    signature := "string(string search, string replace, string subject)" },
  { name := "crc16", provider := .both .crc16, documented := 494,
    signature := "float(float caseinsensitive, string s, ...)" },
  { name := "cvar_type", provider := .both .cvarType, documented := 495,
    signature := "float(string name)" },
  { name := "uri_escape", provider := .both .uriEscape, documented := 510,
    signature := "string(string in)" },
  { name := "uri_unescape", provider := .both .uriUnescape, documented := 511,
    signature := "string(string in)" },
  { name := "tokenize_console", provider := .both .tokenizeConsole, documented := 514,
    signature := "float(string str)" },
  { name := "argv_start_index", provider := .both .argvStartIndex, documented := 515,
    signature := "float(float idx)" },
  { name := "argv_end_index", provider := .both .argvEndIndex, documented := 516,
    signature := "float(float idx)" },
  { name := "buf_cvarlist", provider := .both .bufCvarlist, documented := 517,
    signature := "void(float strbuf, string pattern, string antipattern)" },
  { name := "buf_loadfile", provider := .both .bufLoadfile, documented := 535,
    signature := "float(string filename, float bufhandle)" },
  { name := "buf_writefile", provider := .both .bufWritefile, documented := 536,
    signature := "float(float filehandle, float bufhandle, optional float startpos, optional float numstrings)" },
  { name := "sprintf", provider := .both .sprintf, documented := 627,
    signature := "string(string fmt, ...)",
    description := "Formatted string." },
  { name := "checkbuiltin", provider := .both .checkbuiltin, documented := 0,
    signature := "float(__variant funcref)",
    description := "Whether a builtin reference will work." },
  { name := "builtinsupported", provider := .both .builtinsupported, documented := 0,
    signature := "float(string builtinname)",
    description := "Number of a builtin, 0 if unknown." },
  { name := "ftoi", provider := .both .ftoi, documented := 0,
    signature := "int(float)" },
  { name := "itof", provider := .both .itof, documented := 0,
    signature := "float(int)" },
  { name := "search_getfilesize", provider := .both .searchGetfilesize, documented := 0,
    signature := "float(float handle, float num)" },
  { name := "search_getfilemtime", provider := .both .searchGetfilemtime, documented := 0,
    signature := "string(float handle, float num)" },
  { name := "stringwidth", provider := .client .stringwidth, documented := 0,
    signature := "float(string text, float usecolours, optional vector fontsize)" }]

/-- The catalogue of all builtin functions. -/
def catalog : Catalog := ⟨Catalog.assign Catalog.highest builtinEntries⟩

/-- The builtin of a number that a role has. -/
def Primitive.resolve? (number : Nat) (role : Role) : Option Primitive :=
  (catalog.lookup? number).bind (·.entry.provider.for? role)

end QuakeVm
