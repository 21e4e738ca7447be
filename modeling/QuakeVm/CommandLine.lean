import QuakeVm.Declarations
import QuakeVm.Host

/-!
# Command lines

Two programs: one runs functions of a game's program, the other writes the declarations of the
builtin functions. Both are functions from their arguments and the disk to what they print, what they
leave on the disk, and their exit code.
-/

namespace QuakeVm

/-- What a command leaves behind. -/
structure Outcome where
  code : UInt32 := 0
  output : Bytes := []
  errors : String := ""
  disk : Disk

namespace CommandLine

/-! ## Styles -/

/-- A text in a style of the terminal. -/
def styled (code text : String) : String := "\x1b[" ++ code ++ "m" ++ text ++ "\x1b[0m"

/-- Names of functions. -/
def functionStyle : String → String := styled "36;1"

/-- Numbers. -/
def numberStyle : String → String := styled "33"

/-- What is missing. -/
def missingStyle : String → String := styled "33;1"

/-- Errors. -/
def errorStyle : String → String := styled "31;1"

/-- Success. -/
def successStyle : String → String := styled "32;1"

/-! ## Running functions -/

/-- How the program is called. -/
def usage : String :=
  "usage: qcvm [--client] [--set NAME VALUE]... [GAMEDIR] [FUNCTION]..."

/-- The arguments, taken apart. -/
structure Options where
  role : Role := .server
  cvars : List (String × String) := []
  positional : List String := []

/-- The arguments taken apart, or what is wrong with them. -/
def parse (o : Options) : List String → Except String Options
  | [] => .ok o
  | "--client" :: rest => parse { o with role := .client } rest
  | "--set" :: name :: value :: rest => parse { o with cvars := o.cvars ++ [(name, value)] } rest
  | ["--set", _] | ["--set"] => .error "--set needs a name and a value"
  | arg :: rest =>
    if arg == "-h" || arg == "--help" then .error usage
    else if "--".toList.isPrefixOf arg.toList then .error s!"unknown option {arg}\n{usage}"
    else parse { o with positional := o.positional ++ [arg] } rest

/-- The game directory. -/
def Options.directory (o : Options) (default : String) : String := o.positional.headD default

/-- The functions to run. -/
def Options.functions (o : Options) (default : String) : List String :=
  match o.positional.drop 1 with
  | [] => [default]
  | l => l

/-- The program file of a role. -/
def programFile : Role → String
  | .server => "progs.dat"
  | .client => "csprogs.dat"

/-- The function that is run if none is named. -/
def defaultFunction : Role → String
  | .server => "worldspawn"
  | .client => "CSQC_Init"

/-- A variable set; it is made if there is none. -/
def setVariable (h : Host) (name value : String) : Host :=
  let h := h.mapWorld fun w =>
    { w with cvars := w.cvars.register name value Cvar.userDefined "" }
  (h.setCvar name value).2

/-- The host after functions were run, and what there is to say; whether one of them failed. -/
def runAll (h : Host) (role : Role) : List String → Bool × String × Host
  | [] => (true, "", h)
  | name :: rest =>
    match h.execute role name with
    | (.ok (), h) =>
      let (ok, errors, h) := runAll h role rest
      (ok, successStyle "ran" ++ " " ++ functionStyle name ++ "\n" ++ errors, h)
    | (.error f, h) => (false, errorStyle "error:" ++ " " ++ f.message ++ "\n", h)

/-- What is said at the end: the commands that were asked for, and the number of cautions. -/
def closing (h : Host) : String :=
  let cautions := h.world.log.cautions
  Text.lossy h.world.commandText
    ++ if 0 < cautions then numberStyle s!"{cautions}" ++ " warnings\n" else ""

/-- Run functions of a program. -/
def runProgram (h : Host) (role : Role) (directory : String) (functions : List String) : Outcome :=
  let (disabled, h) := h.disabledExtensions role
  let notice := if disabled.isEmpty then ""
    else missingStyle "disabled extensions:" ++ " " ++ String.intercalate " " disabled ++ "\n"
  let path := Path.join directory (programFile role)
  match h.loadFile role path with
  | (.error e, h) =>
    { code := 1
      errors := notice ++ errorStyle "error:" ++ " " ++ path ++ ": " ++ e.message ++ "\n"
      disk := h.world.disk }
  | (.ok (), h) =>
    let (ok, errors, h) := runAll h role functions
    { code := if ok then 0 else 1
      output := h.world.output
      errors := notice ++ errors ++ if ok then closing h else ""
      disk := h.world.disk }

/-- Run functions of the program of a game. `world` makes the world of a game directory. -/
def run (defaultDirectory : String) (world : String → World) (disk : Disk) (args : List String) :
    Outcome :=
  match parse {} args with
  | .error message => { code := 1, errors := message ++ "\n", disk }
  | .ok o =>
    let directory := o.directory defaultDirectory
    let h : Host := { world := { world directory with disk } }
    let h := o.cvars.foldl (fun h (name, value) => setVariable h name value) h
    runProgram h o.role directory (o.functions (defaultFunction o.role))

/-! ## Writing declarations -/

/-- Ranges of characters that show nothing by themselves: controls, blanks other than the space, marks
of format, accents that join the character before them, and private characters. -/
def hiddenRanges : List (Nat × Nat) := [
  (0x0, 0x1f), (0x7f, 0xa0), (0xad, 0xad), (0x300, 0x36f), (0x483, 0x489), (0x600, 0x605),
  (0x61c, 0x61c), (0x6dd, 0x6dd), (0x70f, 0x70f), (0x1680, 0x1680), (0x180b, 0x180f),
  (0x1ab0, 0x1ace), (0x1dc0, 0x1dff), (0x2000, 0x200f), (0x2028, 0x202f), (0x205f, 0x206f),
  (0x20d0, 0x20f0), (0x3000, 0x3000), (0xe000, 0xf8ff), (0xfe00, 0xfe0f), (0xfe20, 0xfe2f),
  (0xfeff, 0xfeff), (0xfff0, 0xfffb), (0xfffe, 0xffff), (0xe0000, 0x10ffff)]

/-- Whether a character shows nothing by itself. -/
def isHidden (c : Char) : Bool :=
  hiddenRanges.any fun (first, last) => first ≤ c.toNat && c.toNat ≤ last

/-- A character of a quoted text. -/
def quotedChar (c : Char) : String :=
  if c == '"' then "\\\""
  else if c == '\\' then "\\\\"
  else if c == '\n' then "\\n"
  else if c == '\r' then "\\r"
  else if c == '\t' then "\\t"
  else if c == '\x00' then "\\0"
  else if isHidden c then
    "\\u\x7b" ++ Number.asText (Number.numeral 16 false c.toNat) ++ "\x7d"
  else c.toString

/-- A text in double quotes. -/
def quoted (s : String) : String := "\"" ++ String.join (s.toList.map quotedChar) ++ "\""

/-- An error of the disk for developers. -/
def diskErrorText (e : DiskError) : String :=
  let (code, kind, message) := match e with
    | .notFound => ("2", "NotFound", "No such file or directory")
    | .isDirectory => ("21", "IsADirectory", "Is a directory")
    | .notDirectory => ("20", "NotADirectory", "Not a directory")
    | .exists_ => ("17", "AlreadyExists", "File exists")
  "Os \x7b code: " ++ code ++ ", kind: " ++ kind ++ ", message: " ++ quoted message ++ " \x7d"

/-- Write the declarations of the builtin functions, or a table of them. -/
def dump (disk : Disk) (now : Int) : List String → Outcome
  | [] => { output := Bytes.ofText Declarations.text, disk }
  | ["--table"] => { output := Bytes.ofText (Declarations.table ++ "\n"), disk }
  | [path] =>
    match disk.create path now with
    | .ok (place, disk) =>
      { errors := successStyle "wrote" ++ " " ++ path ++ "\n"
        disk := disk.set place (.file (Bytes.ofText Declarations.text) now) }
    | .error e => { code := 1, errors := "Error: " ++ diskErrorText e ++ "\n", disk }
  | args =>
    let list := "[" ++ String.intercalate ", " (args.map quoted) ++ "]"
    { code := 1
      errors := "Error: " ++ quoted ("usage: qcdump [--table | FILE], got " ++ list) ++ "\n"
      disk }

end CommandLine

end QuakeVm
