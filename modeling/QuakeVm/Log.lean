/-!
# The log

Records of what happened, in order. A log keeps the records down to its threshold and drops the
others. Cautions are warnings about recoverable misuse of the machine; they are counted, whether the
log keeps them or not.
-/

namespace QuakeVm

/-- The weight of a record. -/
inductive Level where
  | error
  | warn
  | info
  | debug
  | trace
  deriving Repr, DecidableEq

/-- The heaviest level is zero. -/
def Level.rank : Level → Nat
  | .error => 0
  | .warn => 1
  | .info => 2
  | .debug => 3
  | .trace => 4

/-- One record. -/
structure Record where
  level : Level
  text : String
  deriving Repr, DecidableEq

/-- The records kept so far, and the number of cautions. -/
structure Log where
  threshold : Level := .warn
  records : Array Record := #[]
  cautions : Nat := 0
  deriving Repr, DecidableEq

namespace Log

/-- Whether records of a level are kept. -/
def keeps (l : Log) (level : Level) : Bool := level.rank ≤ l.threshold.rank

/-- The log with one more record, if it keeps records of that level. -/
def add (l : Log) (level : Level) (text : Unit → String) : Log :=
  if l.keeps level then { l with records := l.records.push ⟨level, text ()⟩ } else l

/-- The log with one more caution. -/
def caution (l : Log) (text : String) : Log :=
  { l.add .warn fun _ => text with cautions := l.cautions + 1 }

/-- The log without its records. -/
def clear (l : Log) : Log := { l with records := #[] }

end Log

end QuakeVm
