import QuakeVm.Role

/-!
# Owned entries

The files, searches and string buffers of both programs stand in tables that they share. An entry
belongs to the program that made it, and no other program can reach it.
-/

namespace QuakeVm

/-- A value and the role it belongs to. -/
structure Owned (α : Type) where
  owner : Role
  value : α
  deriving Repr, DecidableEq

/-- A table of entries that belong to roles. -/
structure OwnedTable (α : Type) where
  slots : Array (Option (Owned α))

/-- Why a handle does not give an entry. -/
inductive Misuse where
  | foreign (owner : Role)
  | invalid
  deriving Repr, DecidableEq

/-- The text about a misused handle, from the operation that was asked for, what the handle should
name, and the handle. -/
def Misuse.message (operation noun : String) (handle : Int) : Misuse → String
  | .foreign owner => s!"{operation}: {noun} {handle} belongs to the {owner.name} VM"
  | .invalid => s!"{operation}: invalid {noun} {handle}"

namespace OwnedTable

variable {α : Type}

/-- A table with `n` free slots. -/
def empty (n : Nat) : OwnedTable α := ⟨.replicate n none⟩

/-- The number of slots. -/
def size (t : OwnedTable α) : Nat := t.slots.size

/-- The entry of a slot, free or not. -/
def slot? (t : OwnedTable α) (i : Int) : Option (Owned α) :=
  if i < 0 then none else t.slots.getD i.toNat none

/-- The entry of a slot, for the role that it belongs to. -/
def get (t : OwnedTable α) (owner : Role) (i : Int) : Except Misuse α :=
  match t.slot? i with
  | none => .error .invalid
  | some e => if e.owner == owner then .ok e.value else .error (.foreign e.owner)

/-- The table with an entry in a slot. -/
def put (t : OwnedTable α) (i : Nat) (owner : Role) (v : α) : OwnedTable α :=
  ⟨t.slots.setIfInBounds i (some ⟨owner, v⟩)⟩

/-- The table with a slot freed. -/
def erase (t : OwnedTable α) (i : Nat) : OwnedTable α := ⟨t.slots.setIfInBounds i none⟩

/-- The first free slot. -/
def free? (t : OwnedTable α) : Option Nat := t.slots.findIdx? (·.isNone)

/-- The table with `n` more free slots. -/
def grow (t : OwnedTable α) (n : Nat) : OwnedTable α := ⟨t.slots ++ Array.replicate n none⟩

/-- Whether a slot belongs to a role. -/
def belongsTo (owner : Role) : Option (Owned α) → Bool
  | some e => e.owner == owner
  | none => false

/-- The entries of a role, in the order of their slots. -/
def owned (t : OwnedTable α) (owner : Role) : List α :=
  t.slots.toList.filterMap fun s =>
    match s with
    | some e => if e.owner == owner then some e.value else none
    | none => none

/-- The number of entries of a role. -/
def count (t : OwnedTable α) (owner : Role) : Nat := (t.owned owner).length

/-- The table without the entries of a role. -/
def release (t : OwnedTable α) (owner : Role) : OwnedTable α :=
  ⟨t.slots.map fun s => if belongsTo owner s then none else s⟩

end OwnedTable

end QuakeVm
