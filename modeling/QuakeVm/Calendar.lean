import QuakeVm.Number.Digits

/-!
# Dates and times

Seconds since 1970 as a date of the Gregorian calendar and a time of day, and texts made from them by
directives. A directive is a percent sign and a letter; `-`, `_` and `0` in between say how a number
is padded. A format with a directive that does not exist has no text at all.

The clock has whole seconds, so fractions of a second are zero.

## Termination

`formatFrom?` goes on behind a directive, where less is left (`length_render?_lt`).
-/

namespace QuakeVm.Calendar

/-! ## Dates -/

/-- A moment, taken apart. Days of the week count from Sunday, days of the year from zero. -/
structure Moment where
  timestamp : Int
  year : Int
  month : Nat
  day : Nat
  weekday : Nat
  yearDay : Nat
  hour : Nat
  minute : Nat
  second : Nat
  deriving Repr, DecidableEq

/-- Whether a year has a leap day. -/
def isLeap (year : Int) : Bool := year % 4 == 0 && (year % 100 != 0 || year % 400 == 0)

/-- Year, month and day of a number of days since 1970. Years are counted from March, so that the
leap day comes last. -/
def civil (days : Int) : Int × Nat × Nat :=
  let z := days + 719468
  let era := z / 146097
  let doe := (z % 146097).toNat
  let yoe := (doe - doe / 1460 + doe / 36524 - doe / 146096) / 365
  let doy := doe - (365 * yoe + yoe / 4 - yoe / 100)
  let mp := (5 * doy + 2) / 153
  let month := if mp < 10 then mp + 3 else mp - 9
  (yoe + era * 400 + (if month ≤ 2 then 1 else 0), month, doy - (153 * mp + 2) / 5 + 1)

/-- The days of a year before a month. -/
def daysBefore (leap : Bool) (month : Nat) : Nat :=
  [0, 31, 59, 90, 120, 151, 181, 212, 243, 273, 304, 334].getD (month - 1) 0
    + (if leap && 2 < month then 1 else 0)

/-- The moment of a timestamp. -/
def Moment.ofTimestamp (timestamp : Int) : Moment :=
  let days := timestamp / 86400
  let seconds := (timestamp % 86400).toNat
  let (year, month, day) := civil days
  { timestamp, year, month, day
    weekday := ((days + 4) % 7).toNat
    yearDay := daysBefore (isLeap year) month + day - 1
    hour := seconds / 3600
    minute := seconds / 60 % 60
    second := seconds % 60 }

/-- The day of the week, Monday first and counted from one. -/
def Moment.mondayFirst (m : Moment) : Nat := if m.weekday == 0 then 7 else m.weekday

/-- The week of the year whose weeks begin on the day `first` of the week. -/
def Moment.week (m : Moment) (first : Nat) : Nat :=
  (m.yearDay + 7 - (m.weekday + 7 - first) % 7) / 7

/-- The number of weeks of a year whose weeks begin on Monday and belong where their Thursday is. -/
def isoWeeks (year : Int) : Nat :=
  let p (y : Int) : Int := (y + y / 4 - y / 100 + y / 400) % 7
  if p year == 4 || p (year - 1) == 3 then 53 else 52

/-- Year and week, where a week belongs to the year that has its Thursday. -/
def Moment.isoWeek (m : Moment) : Int × Nat :=
  let w := (m.yearDay + 1 + 10 - m.mondayFirst) / 7
  if w == 0 then (m.year - 1, isoWeeks (m.year - 1))
  else if isoWeeks m.year < w then (m.year + 1, 1)
  else (m.year, w)

/-! ## Texts -/

/-- Which clock is asked. Local time is universal time under another name. -/
inductive Zone where
  | universal
  | here
  deriving Repr, DecidableEq

/-- The name of a zone. -/
def Zone.name : Zone → String
  | .universal => "UTC"
  | .here => "+00:00"

/-- How a number is filled up. -/
inductive Pad where
  | none
  | zero
  | space
  deriving Repr, DecidableEq

/-- A number filled up to a width. -/
def padded (pad : Pad) (width n : Nat) : String :=
  let s := Number.decimal n
  Number.asText (match pad with
    | .none => s
    | .zero => Number.padLeft width 0x30 s
    | .space => Number.padLeft width 0x20 s)

/-- A year: four digits, or a sign and at least four digits outside of them. -/
def yearText (pad : Pad) (year : Int) : String :=
  if 0 ≤ year && year ≤ 9999 then padded pad 4 year.toNat
  else (if year < 0 then "-" else "+") ++ padded pad 4 year.natAbs

/-- Two digits. -/
def two (n : Nat) : String := padded .zero 2 n

/-- The names of the days of the week. -/
def weekdays : List String :=
  ["Sunday", "Monday", "Tuesday", "Wednesday", "Thursday", "Friday", "Saturday"]

/-- The names of the months. -/
def months : List String :=
  ["January", "February", "March", "April", "May", "June", "July", "August", "September",
    "October", "November", "December"]

/-- The first three letters. -/
def short (s : String) : String := String.ofList (s.toList.take 3)

/-- The hour on a clock with twelve of them. -/
def Moment.hour12 (m : Moment) : Nat := if m.hour % 12 == 0 then 12 else m.hour % 12

/-- What a directive stands for: a number that can be padded in several ways, or a text. -/
inductive Field where
  | number (pad : Pad) (text : Pad → String)
  | text (s : String)

/-- A number with a usual padding and a width. -/
def Field.ofNat (pad : Pad) (width n : Nat) : Field := .number pad fun p => padded p width n

/-- The date with slashes. -/
def slashDate (m : Moment) : String :=
  two m.month ++ "/" ++ two m.day ++ "/" ++ two (m.year % 100).toNat

/-- The date with dashes, year first. -/
def isoDate (m : Moment) : String :=
  yearText .zero m.year ++ "-" ++ two m.month ++ "-" ++ two m.day

/-- Hour, minute and second. -/
def clock (m : Moment) : String := two m.hour ++ ":" ++ two m.minute ++ ":" ++ two m.second

/-- The directives of one letter. -/
def field? (zone : Zone) (m : Moment) : Char → Option Field
  | 'A' => some (.text (weekdays.getD m.weekday ""))
  | 'B' => some (.text (months.getD (m.month - 1) ""))
  | 'C' => some (.ofNat .zero 2 (m.year / 100).toNat)
  | 'D' | 'x' => some (.text (slashDate m))
  | 'F' => some (.text (isoDate m))
  | 'G' => some (.number .zero fun p => yearText p m.isoWeek.1)
  | 'H' => some (.ofNat .zero 2 m.hour)
  | 'I' => some (.ofNat .zero 2 m.hour12)
  | 'M' => some (.ofNat .zero 2 m.minute)
  | 'P' => some (.text (if m.hour < 12 then "am" else "pm"))
  | 'R' => some (.text (two m.hour ++ ":" ++ two m.minute))
  | 'S' => some (.ofNat .zero 2 m.second)
  | 'T' | 'X' => some (.text (clock m))
  | 'U' => some (.ofNat .zero 2 (m.week 0))
  | 'V' => some (.ofNat .zero 2 m.isoWeek.2)
  | 'W' => some (.ofNat .zero 2 (m.week 1))
  | 'Y' => some (.number .zero fun p => yearText p m.year)
  | 'Z' => some (.text zone.name)
  | 'a' => some (.text (short (weekdays.getD m.weekday "")))
  | 'b' | 'h' => some (.text (short (months.getD (m.month - 1) "")))
  | 'c' =>
    some (.text (short (weekdays.getD m.weekday "") ++ " " ++ short (months.getD (m.month - 1) "")
      ++ " " ++ padded .space 2 m.day ++ " " ++ clock m ++ " " ++ yearText .zero m.year))
  | 'd' => some (.ofNat .zero 2 m.day)
  | 'e' => some (.ofNat .space 2 m.day)
  | 'f' => some (.ofNat .zero 9 0)
  | 'g' => some (.ofNat .zero 2 (m.isoWeek.1 % 100).toNat)
  | 'j' => some (.ofNat .zero 3 (m.yearDay + 1))
  | 'k' => some (.ofNat .space 2 m.hour)
  | 'l' => some (.ofNat .space 2 m.hour12)
  | 'm' => some (.ofNat .zero 2 m.month)
  | 'n' => some (.text "\n")
  | 'p' => some (.text (if m.hour < 12 then "AM" else "PM"))
  | 'q' => some (.ofNat .none 1 ((m.month + 2) / 3))
  | 'r' =>
    some (.text (two m.hour12 ++ ":" ++ two m.minute ++ ":" ++ two m.second
      ++ (if m.hour < 12 then " AM" else " PM")))
  | 's' => some (.number .none fun _ => Number.asText (Number.signedDecimal m.timestamp))
  | 't' => some (.text "\t")
  | 'u' => some (.ofNat .none 1 m.mondayFirst)
  | 'v' =>
    some (.text (padded .space 2 m.day ++ "-" ++ short (months.getD (m.month - 1) "") ++ "-"
      ++ yearText .zero m.year))
  | 'w' => some (.ofNat .none 1 m.weekday)
  | 'y' => some (.ofNat .zero 2 (m.year % 100).toNat)
  | 'z' => some (.text "+0000")
  | '+' => some (.text (isoDate m ++ "T" ++ clock m ++ "+00:00"))
  | '%' => some (.text "%")
  | _ => none

/-- The directive at the front of a format, behind its percent sign, and what follows it. -/
def directive? (zone : Zone) (m : Moment) : List Char → Option (Field × List Char)
  | ':' :: ':' :: ':' :: 'z' :: rest => some (.text "+00", rest)
  | ':' :: ':' :: 'z' :: rest => some (.text "+00:00:00", rest)
  | ':' :: 'z' :: rest => some (.text "+00:00", rest)
  | '.' :: 'f' :: rest => some (.text "", rest)
  | '.' :: '3' :: 'f' :: rest => some (.text ".000", rest)
  | '.' :: '6' :: 'f' :: rest => some (.text ".000000", rest)
  | '.' :: '9' :: 'f' :: rest => some (.text ".000000000", rest)
  | '3' :: 'f' :: rest => some (.text "000", rest)
  | '6' :: 'f' :: rest => some (.text "000000", rest)
  | '9' :: 'f' :: rest => some (.text "000000000", rest)
  | c :: rest => (field? zone m c).map (·, rest)
  | [] => none

/-- The padding that a character asks for. -/
def padding? : Char → Option Pad
  | '-' => some .none
  | '0' => some .zero
  | '_' => some .space
  | _ => none

/-- The text of the directive at the front of a format, behind its percent sign, and what follows.
Only numbers can be padded. -/
def render? (zone : Zone) (m : Moment) : List Char → Option (String × List Char)
  | [] => none
  | c :: rest =>
    match padding? c with
    | some pad =>
      match directive? zone m rest with
      | some (.number _ text, rest) => some (text pad, rest)
      | _ => none
    | none =>
      match directive? zone m (c :: rest) with
      | some (.number pad text, rest) => some (text pad, rest)
      | some (.text s, rest) => some (s, rest)
      | none => none

theorem length_directive?_lt {zone : Zone} {m : Moment} {s rest : List Char} {f : Field}
    (h : directive? zone m s = some (f, rest)) : rest.length < s.length := by
  unfold directive? at h
  split at h
  case h_11 =>
    simp only [Option.map_eq_some_iff, Prod.mk.injEq] at h
    obtain ⟨_, _, _, rfl⟩ := h
    simp
  all_goals
    simp only [Option.some.injEq, Prod.mk.injEq, reduceCtorEq] at h
  all_goals
    rw [← h.2]
    simp only [List.length_cons]
    omega

theorem length_render?_lt {zone : Zone} {m : Moment} {s rest : List Char} {t : String}
    (h : render? zone m s = some (t, rest)) : rest.length < s.length := by
  unfold render? at h
  split at h
  · simp at h
  · split at h
    · split at h
      · rename_i heq
        have := length_directive?_lt heq
        simp only [Option.some.injEq, Prod.mk.injEq] at h
        rw [← h.2, List.length_cons]
        omega
      · simp at h
    · split at h
      · rename_i heq
        have := length_directive?_lt heq
        simp only [Option.some.injEq, Prod.mk.injEq] at h
        rw [← h.2]
        exact this
      · rename_i heq
        have := length_directive?_lt heq
        simp only [Option.some.injEq, Prod.mk.injEq] at h
        rw [← h.2]
        exact this
      · simp at h

/-- The text of a format, if all its directives exist. -/
def formatFrom? (zone : Zone) (m : Moment) (s : List Char) : Option String :=
  match s with
  | [] => some ""
  | c :: rest =>
    if c == '%' then
      match _h : render? zone m rest with
      | some (t, rest) => (formatFrom? zone m rest).map (t ++ ·)
      | none => none
    else (formatFrom? zone m rest).map (c.toString ++ ·)
termination_by s.length
decreasing_by
  · have := length_render?_lt _h
    simp only [List.length_cons]
    omega
  · simp

/-- The text of a format at a timestamp, if all its directives exist. -/
def format? (zone : Zone) (timestamp : Int) (format : String) : Option String :=
  formatFrom? zone (.ofTimestamp timestamp) format.toList

/-- Date and time of a timestamp. -/
def stamp (timestamp : Int) : String :=
  let m := Moment.ofTimestamp timestamp
  isoDate m ++ " " ++ clock m

end QuakeVm.Calendar
