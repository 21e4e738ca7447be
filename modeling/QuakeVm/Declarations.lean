import QuakeVm.Builtin.Table
import QuakeVm.Extension

/-!
# Declarations for compilers

The builtin functions as declarations that a compiler for this machine can read, followed by the
constants that programs use; and the same functions as a table for people.
-/

namespace QuakeVm.Declarations

/-! ## Constants -/

/-- The numbers of player statistics. -/
def stats : List (String × Nat) := [
  ("STAT_HEALTH", 0), ("STAT_FRAGS", 1), ("STAT_WEAPON", 2), ("STAT_AMMO", 3), ("STAT_ARMOR", 4),
  ("STAT_WEAPONFRAME", 5), ("STAT_SHELLS", 6), ("STAT_NAILS", 7), ("STAT_ROCKETS", 8),
  ("STAT_CELLS", 9), ("STAT_ACTIVEWEAPON", 10), ("STAT_TOTALSECRETS", 11),
  ("STAT_TOTALMONSTERS", 12), ("STAT_SECRETS", 13), ("STAT_MONSTERS", 14), ("STAT_ITEMS", 15),
  ("STAT_VIEWHEIGHT", 16)]

/-- The flags of entities. -/
def entityFlags : List (String × Nat) := [
  ("FL_FLY", 1), ("FL_SWIM", 2), ("FL_CLIENT", 8), ("FL_INWATER", 16), ("FL_MONSTER", 32),
  ("FL_GODMODE", 64), ("FL_NOTARGET", 128), ("FL_ITEM", 256), ("FL_ONGROUND", 512),
  ("FL_PARTIALGROUND", 1024), ("FL_WATERJUMP", 2048), ("FL_JUMPRELEASED", 4096)]

/-- The codes of keys. -/
def keys : List (String × Nat) := [
  ("K_TAB", 9), ("K_ENTER", 13), ("K_ESCAPE", 27), ("K_SPACE", 32), ("K_BACKSPACE", 127),
  ("K_UPARROW", 128), ("K_DOWNARROW", 129), ("K_LEFTARROW", 130), ("K_RIGHTARROW", 131),
  ("K_ALT", 132), ("K_CTRL", 133), ("K_SHIFT", 134), ("K_F1", 135), ("K_F2", 136), ("K_F3", 137),
  ("K_F4", 138), ("K_F5", 139), ("K_F6", 140), ("K_F7", 141), ("K_F8", 142), ("K_F9", 143),
  ("K_F10", 144), ("K_F11", 145), ("K_F12", 146), ("K_INS", 147), ("K_DEL", 148), ("K_PGDN", 149),
  ("K_PGUP", 150), ("K_HOME", 151), ("K_END", 152), ("K_MOUSE1", 200), ("K_MOUSE2", 201),
  ("K_MOUSE3", 202), ("K_PAUSE", 255)]

/-- A group of constants. -/
def constants (title : String) (l : List (String × Nat)) : String :=
  "\n// " ++ title ++ "\n" ++ String.join (l.map fun (name, n) => s!"const float {name} = {n};\n")

/-! ## Functions -/

/-- Who has a builtin, if not everyone. -/
def rolesNote : Provider → String
  | .both _ => ""
  | .server _ => " (server only)"
  | .client _ => " (client only)"
  | .nobody => " (not implemented)"

/-- A builtin as a declaration, behind a comment if there is something to say. -/
def declaration (b : Builtin) : String :=
  let note := b.entry.description ++ rolesNote b.entry.provider
  (if note.isEmpty then "" else "// " ++ note ++ "\n")
    ++ b.result ++ " " ++ b.entry.name ++ b.parameters ++ s!" = #{b.number};\n"

/-- Whether a builtin does all it should for some program. -/
def isComplete (b : Builtin) : Bool := b.entry.provider.isSomeone && !b.entry.stub

/-- All builtins by number. -/
def byNumber : List Builtin := catalog.builtins.mergeSort fun a b => a.number ≤ b.number

/-- The complete builtins by number. -/
def complete : List Builtin := byNumber.filter isComplete

/-- The other builtins by number. -/
def stubs : List Builtin := byNumber.filter (! isComplete ·)

/-- All declarations. -/
def text : String :=
  "// Generated by qcdump, do not edit.\n"
    ++ "// Numbers without documentation may change between builds, "
    ++ "bind those with `= #0;` and builtinsupported.\n"
    ++ "\n// Extensions:\n" ++ String.join (Extension.all.map fun name => s!"//   {name}\n")
    ++ "\n// Implemented builtins\n" ++ String.join (complete.map declaration)
    ++ "\n// Stubs\n" ++ String.join (stubs.map declaration)
    ++ constants "Stats" stats ++ constants "Entity flags" entityFlags
    ++ constants "Key codes" keys

/-! ## The table -/

/-- A cross, or nothing. -/
def cross (b : Bool) : String := if b then "x" else ""

/-- A row of the table. -/
def row (b : Builtin) : List String :=
  [s!"{b.number}", b.entry.name, cross (b.isFor .server), cross (b.isFor .client),
    cross b.entry.stub]

/-- The head of the table. -/
def head : List String := ["#", "Name", "Server", "Client", "Stub"]

/-- The widths of columns: those of their widest cells. -/
def widths (rows : List (List String)) : List Nat :=
  rows.foldl (fun ws row => ws.zipWith Nat.max (row.map String.length)) (head.map fun _ => 0)

/-- A character repeated. -/
def repeated (n : Nat) (c : Char) : String := String.ofList (List.replicate n c)

/-- A row between borders. -/
def rowText (ws : List Nat) (cells : List String) : String :=
  let cell (w : Nat) (s : String) : String := " " ++ s ++ repeated (w - s.length) ' ' ++ " "
  "│" ++ String.intercalate " " (ws.zipWith cell cells) ++ "│"

/-- A line as wide as the rows. -/
def rule (ws : List Nat) (left line right : Char) : String :=
  left.toString ++ repeated (ws.foldl (· + · + 2) 0 + (ws.length - 1)) line ++ right.toString

/-- The table of all builtins. -/
def table : String :=
  let rows := (complete ++ stubs).map row
  let ws := widths (head :: rows)
  String.intercalate "\n"
    (rule ws '┌' '─' '┐' :: rowText ws head :: rule ws '╞' '═' '╡' :: rows.map (rowText ws)
      ++ [rule ws '└' '─' '┘'])

end QuakeVm.Declarations
