/-!
# Opcodes

The instructions of the machine, their numbers in program files and their names. An opcode is a
number below 66, and `ofNumber?` and `number` are inverse to each other.
-/

namespace QuakeVm

/-- An instruction of the machine. -/
inductive Opcode where
  | done
  | mulF | mulV | mulFV | mulVF
  | divF
  | addF | addV
  | subF | subV
  | eqF | eqV | eqS | eqE | eqFnc
  | neF | neV | neS | neE | neFnc
  | le | ge | lt | gt
  | loadF | loadV | loadS | loadEnt | loadFld | loadFnc
  | address
  | storeF | storeV | storeS | storeEnt | storeFld | storeFnc
  | storepF | storepV | storepS | storepEnt | storepFld | storepFnc
  | return_
  | notF | notV | notS | notEnt | notFnc
  | if_ | ifNot
  | call0 | call1 | call2 | call3 | call4 | call5 | call6 | call7 | call8
  | state
  | goto
  | and_ | or_
  | bitAnd | bitOr
  deriving Repr, DecidableEq

namespace Opcode

/-- All opcodes in the order of their numbers, with their names. -/
def table : Array (Opcode × String) := #[
  (.done, "DONE"),
  (.mulF, "MUL_F"), (.mulV, "MUL_V"), (.mulFV, "MUL_FV"), (.mulVF, "MUL_VF"),
  (.divF, "DIV_F"),
  (.addF, "ADD_F"), (.addV, "ADD_V"),
  (.subF, "SUB_F"), (.subV, "SUB_V"),
  (.eqF, "EQ_F"), (.eqV, "EQ_V"), (.eqS, "EQ_S"), (.eqE, "EQ_E"), (.eqFnc, "EQ_FNC"),
  (.neF, "NE_F"), (.neV, "NE_V"), (.neS, "NE_S"), (.neE, "NE_E"), (.neFnc, "NE_FNC"),
  (.le, "LE"), (.ge, "GE"), (.lt, "LT"), (.gt, "GT"),
  (.loadF, "LOAD_F"), (.loadV, "LOAD_V"), (.loadS, "LOAD_S"), (.loadEnt, "LOAD_ENT"),
  (.loadFld, "LOAD_FLD"), (.loadFnc, "LOAD_FNC"),
  (.address, "ADDRESS"),
  (.storeF, "STORE_F"), (.storeV, "STORE_V"), (.storeS, "STORE_S"), (.storeEnt, "STORE_ENT"),
  (.storeFld, "STORE_FLD"), (.storeFnc, "STORE_FNC"),
  (.storepF, "STOREP_F"), (.storepV, "STOREP_V"), (.storepS, "STOREP_S"),
  (.storepEnt, "STOREP_ENT"), (.storepFld, "STOREP_FLD"), (.storepFnc, "STOREP_FNC"),
  (.return_, "RETURN"),
  (.notF, "NOT_F"), (.notV, "NOT_V"), (.notS, "NOT_S"), (.notEnt, "NOT_ENT"),
  (.notFnc, "NOT_FNC"),
  (.if_, "IF"), (.ifNot, "IFNOT"),
  (.call0, "CALL0"), (.call1, "CALL1"), (.call2, "CALL2"), (.call3, "CALL3"), (.call4, "CALL4"),
  (.call5, "CALL5"), (.call6, "CALL6"), (.call7, "CALL7"), (.call8, "CALL8"),
  (.state, "STATE"),
  (.goto, "GOTO"),
  (.and_, "AND"), (.or_, "OR"),
  (.bitAnd, "BITAND"), (.bitOr, "BITOR")]

/-- The opcode of a number. -/
def ofNumber? (n : UInt16) : Option Opcode := table[n.toNat]?.map (·.1)

/-- The number of an opcode. -/
def number (op : Opcode) : UInt16 := op.ctorIdx.toUInt16

/-- The name of an opcode. -/
def name (op : Opcode) : String := (table[op.ctorIdx]?.map (·.2)).getD ""

/-- The opcode of a name. -/
def ofName? (s : String) : Option Opcode := (table.find? (·.2 == s)).map (·.1)

/-- The call with `n` arguments; more than eight count as eight. -/
def call (n : Nat) : Opcode :=
  match n with
  | 0 => .call0
  | 1 => .call1
  | 2 => .call2
  | 3 => .call3
  | 4 => .call4
  | 5 => .call5
  | 6 => .call6
  | 7 => .call7
  | _ => .call8

/-- The number of arguments of a call, for opcodes that are calls. -/
def arguments? : Opcode → Option Nat
  | .call0 => some 0
  | .call1 => some 1
  | .call2 => some 2
  | .call3 => some 3
  | .call4 => some 4
  | .call5 => some 5
  | .call6 => some 6
  | .call7 => some 7
  | .call8 => some 8
  | _ => none

theorem ofNumber?_number (op : Opcode) : ofNumber? op.number = some op := by
  cases op <;> rfl

end Opcode

end QuakeVm
