import QuakeVm.Text.Blank

/-!
# Path names

A path name is a text with slashes between its steps. Empty steps and the step `.` stay where they
are. A path that begins with a slash is absolute.
-/

namespace QuakeVm.Path

/-- Whether a path is absolute. -/
def isAbsolute (path : String) : Bool := path.toList.head? == some '/'

/-- The steps of a path, empty ones included; the first step of an absolute path is empty. -/
def steps (path : String) : List String :=
  (Text.fields (· == '/') path.toList).map String.ofList

/-- The path `name` seen from the directory `base`. An absolute path needs no directory. -/
def join (base name : String) : String :=
  if isAbsolute name || base.isEmpty then name
  else if base.toList.getLast? == some '/' then base ++ name
  else base ++ "/" ++ name

/-- The steps of a path in reverse, without empty steps and `.` at the end. The first step of the
path stays in any case. -/
def trimBack : List String → List String
  | [] => []
  | [s] => [s]
  | s :: rest => if s == "" || s == "." then trimBack rest else s :: rest

theorem length_trimBack_le (l : List String) : (trimBack l).length ≤ l.length := by
  induction l with
  | nil => simp [trimBack]
  | cons s rest ih =>
    cases rest with
    | nil => simp [trimBack]
    | cons t more =>
      rw [trimBack]
      · split
        · simp only [List.length_cons] at ih ⊢
          omega
        · exact Nat.le_refl _
      · simp

/-- The steps of a path in reverse, without those that say nothing at the end. -/
def back (path : String) : List String := trimBack (steps path).reverse

/-- The path of steps in reverse. -/
def ofBack (l : List String) : String :=
  if l == [""] then "/" else String.intercalate "/" l.reverse

/-- The steps in reverse of the directory that holds what the steps lead to. -/
def parentBack? : List String → Option (List String)
  | [] => none
  | [s] => if s == "" then none else some []
  | _ :: rest => some (trimBack rest)

theorem length_parentBack?_lt {l p : List String} (h : parentBack? l = some p) :
    p.length < l.length := by
  unfold parentBack? at h
  split at h
  · simp at h
  · split at h
    · simp at h
    · simp only [Option.some.injEq] at h
      simp [← h]
  · rename_i s rest _
    simp only [Option.some.injEq] at h
    have := length_trimBack_le rest
    rw [← h, List.length_cons]
    omega

/-- The directory that holds what a path leads to. -/
def parent? (path : String) : Option String := (parentBack? (back path)).map ofBack

end QuakeVm.Path
