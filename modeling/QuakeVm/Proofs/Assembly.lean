import QuakeVm.Assembler
import Mathlib.Data.List.Basic

/-!
# Sessions of an assembler

A program is assembled by a sequence of requests. A request adds data, statements, marks and jumps
behind those that are there, and never changes one of them; only the end of a function sets a field of
that function. So what a request did can be found in the program at the place that it had when it was
made, however the session goes on.

* `Adds` says what requests for data do, and `Performs` what any request does to the code.
* `Extends` is what a session keeps and adds; the statement of a jump belongs to that jump alone.
* `getElem?_build` and `getElem?_build_of_jump` say what becomes of a statement in the program.
-/

namespace QuakeVm.Assembler

/-- What can be asked of an assembler. -/
inductive Request where
  | string (s : String)
  | global (name : String) (type : ValueType) (words : List Int32)
  | globalFloat (name : String) (v : Float32)
  | globalVector (name : String) (v : Vec3)
  | globalString (name v : String)
  | globalEntity (name : String)
  | globalFunction (name : String) (f : Int32)
  | localStorage (type : ValueType)
  | field (name : String) (type : ValueType)
  | builtin (name : String) (number : Int32)
  | begin (name : String) (types : List ValueType)
  | finish
  | op (code : Opcode) (x y z : UInt16)
  | call (f : UInt16) (args : List (UInt16 × ValueType))
  | label (text : String)
  | mark (l : Label)
  | goto (l : Label)
  | branch (code : Opcode) (condition : UInt16) (l : Label)

/-- The assembler after a request. -/
def perform (b : Assembler) : Request → Except AssemblyError Assembler
  | .string s => .ok (b.string s).2
  | .global name type words => .ok (b.global name type words).2
  | .globalFloat name v => .ok (b.globalFloat name v).2
  | .globalVector name v => .ok (b.globalVector name v).2
  | .globalString name v => .ok (b.globalString name v).2
  | .globalEntity name => .ok (b.globalEntity name).2
  | .globalFunction name f => .ok (b.globalFunction name f).2
  | .localStorage type => .ok (b.localStorage type).2
  | .field name type => .ok (b.field name type).2
  | .builtin name number => .ok (b.builtin name number).2
  | .begin name types => (b.begin name types).map (·.2.2)
  | .finish => b.finish
  | .op code x y z => .ok (b.op code x y z)
  | .call f args => .ok (b.call f args)
  | .label text => .ok (b.label text).2
  | .mark l => .ok (b.mark l)
  | .goto l => .ok (b.goto l)
  | .branch code condition l => .ok (b.branch code condition l)

/-- The assembler after some requests. -/
def performAll (b : Assembler) : List Request → Except AssemblyError Assembler
  | [] => .ok b
  | r :: rs =>
    match b.perform r with
    | .ok b => b.performAll rs
    | .error e => .error e

section Sessions

variable {b b' : Assembler} {r : Request} {rs rs' : List Request}

theorem performAll_cons_eq_ok :
    b.performAll (r :: rs) = .ok b' ↔ ∃ c, b.perform r = .ok c ∧ c.performAll rs = .ok b' := by
  rw [performAll]
  cases b.perform r <;> simp

theorem performAll_append_eq_ok :
    b.performAll (rs ++ rs') = .ok b' ↔
      ∃ c, b.performAll rs = .ok c ∧ c.performAll rs' = .ok b' := by
  induction rs generalizing b with
  | nil => simp [performAll]
  | cons r rs ih =>
    rw [List.cons_append, performAll_cons_eq_ok]
    simp only [ih, performAll_cons_eq_ok]
    constructor
    · rintro ⟨c, hc, d, hd, h⟩
      exact ⟨d, ⟨c, hc, hd⟩, h⟩
    · rintro ⟨d, ⟨c, hc, hd⟩, h⟩
      exact ⟨c, hc, d, hd, h⟩

/-- A session goes on with a request where the requests before it have led. -/
theorem exists_perform_of_performAll {c : Assembler} (h : b.performAll (rs ++ r :: rs') = .ok b')
    (hc : b.performAll rs = .ok c) : ∃ d, c.perform r = .ok d ∧ d.performAll rs' = .ok b' := by
  obtain ⟨c', hc', h⟩ := performAll_append_eq_ok.mp h
  obtain rfl : c' = c := Except.ok.inj (hc'.symm.trans hc)
  exact performAll_cons_eq_ok.mp h

end Sessions

/-! ## Data -/

/-- Words of globals are added behind the others; the code stays. -/
structure Allocates (words : List Int32) (b b' : Assembler) : Prop where
  globals_eq : b'.globals.toList = b.globals.toList ++ words
  statements_eq : b'.statements = b.statements
  marks_eq : b'.marks = b.marks
  jumps_eq : b'.jumps = b.jumps

/-- Words of globals are added, and the functions stay, too. -/
structure Adds (words : List Int32) (b b' : Assembler) : Prop extends Allocates words b b' where
  functions_eq : b'.functions = b.functions
  current_eq : b'.current = b.current

section Adds

variable {b b' b'' : Assembler} {words words' : List Int32}

theorem Allocates.size_globals (h : Allocates words b b') :
    b'.globals.size = b.globals.size + words.length := by
  rw [← Array.length_toList, h.globals_eq, List.length_append, Array.length_toList]

theorem Allocates.trans (h : Allocates words b b') (h' : Allocates words' b' b'') :
    Allocates (words ++ words') b b'' where
  globals_eq := by rw [h'.globals_eq, h.globals_eq, List.append_assoc]
  statements_eq := h'.statements_eq.trans h.statements_eq
  marks_eq := h'.marks_eq.trans h.marks_eq
  jumps_eq := h'.jumps_eq.trans h.jumps_eq

theorem Adds.trans (h : Adds words b b') (h' : Adds words' b' b'') : Adds (words ++ words') b b'' where
  toAllocates := h.toAllocates.trans h'.toAllocates
  functions_eq := h'.functions_eq.trans h.functions_eq
  current_eq := h'.current_eq.trans h.current_eq

theorem Adds.trans_nil (h : Adds words b b') (h' : Adds [] b' b'') : Adds words b b'' :=
  List.append_nil words ▸ h.trans h'

/-- Other parts than those that `Adds` names may change in any way. -/
theorem adds_describe (b : Assembler) (strings : Bytes) (interned : List (String × Int32))
    (globaldefs fielddefs : Array Definition) (entityFields labels : Nat) :
    Adds [] b { b with strings, interned, globaldefs, fielddefs, entityFields, labels } :=
  ⟨⟨(List.append_nil _).symm, rfl, rfl, rfl⟩, rfl, rfl⟩

theorem adds_string (b : Assembler) (s : String) : Adds [] b (b.string s).2 := by
  unfold string
  split
  · exact b.adds_describe _ _ _ _ _ _
  · split <;> exact b.adds_describe _ _ _ _ _ _

theorem adds_allocate (b : Assembler) (words : List Int32) : Adds words b (b.allocate words).2 :=
  ⟨⟨by simp [allocate], rfl, rfl, rfl⟩, rfl, rfl⟩

theorem adds_global (b : Assembler) (name : String) (type : ValueType) (words : List Int32) :
    Adds words b (b.global name type words).2 := by
  unfold global
  dsimp only
  split
  · exact b.adds_allocate words
  · refine (b.adds_allocate words).trans_nil ?_
    exact (adds_string _ name).trans (adds_describe _ _ _ _ _ _ _)

theorem adds_components (b : Assembler) (name : String) (offset : UInt16)
    (parts : List (String × UInt16)) : Adds [] b (b.components name offset parts) := by
  induction parts generalizing b with
  | nil => exact b.adds_describe _ _ _ _ _ _
  | cons part parts ih =>
    obtain ⟨suffix, i⟩ := part
    refine (b.adds_string (name ++ suffix)).trans ?_
    exact (adds_describe _ _ _ _ _ _ _).trans (ih _)

theorem adds_globalVector (b : Assembler) (name : String) (v : Vec3) :
    Adds [floatWord v.x, floatWord v.y, floatWord v.z] b (b.globalVector name v).2 := by
  unfold globalVector
  dsimp only
  split
  · exact b.adds_global name .vector _
  · exact (b.adds_global name .vector _).trans_nil (adds_components _ name _ _)

theorem adds_globalString (b : Assembler) (name v : String) :
    Adds [(b.string v).1] b (b.globalString name v).2 :=
  (b.adds_string v).trans (adds_global _ name .string _)

theorem adds_field (b : Assembler) (name : String) (type : ValueType) :
    Adds [Int32.ofNat b.entityFields] b (b.field name type).2 := by
  have hcount : Adds [] b { b with entityFields := b.entityFields + type.size } :=
    b.adds_describe _ _ _ _ _ _
  refine (hcount.trans (adds_string _ name)).trans ?_
  exact (adds_describe _ _ _ _ _ _ _).trans (adds_global _ name .field _)

theorem adds_parameters (b : Assembler) (types : List ValueType) :
    Adds (types.flatMap fun t => List.replicate t.size 0) b (b.parameters types).2 := by
  induction types generalizing b with
  | nil => exact b.adds_describe _ _ _ _ _ _
  | cons t types ih => exact (b.adds_global "" t _).trans (ih _)

/-- The places of parameters that lie one behind the other from `n` on. -/
def parameterPlaces (n : Nat) : List ValueType → List Nat
  | [] => []
  | t :: types => n :: parameterPlaces (n + t.size) types

theorem parameters_fst (b : Assembler) (types : List ValueType) :
    (b.parameters types).1 = (parameterPlaces b.globals.size types).map Nat.toUInt16 := by
  induction types generalizing b with
  | nil => rfl
  | cons t types ih =>
    have hsize := (b.adds_global "" t (List.replicate t.size 0)).size_globals
    rw [List.length_replicate] at hsize
    rw [parameterPlaces, List.map_cons, ← hsize]
    exact congrArg (_ :: ·) (ih _)

end Adds

/-! ## Code -/

/-- The stores of arguments into the parameter registers from register `n` on. -/
def argumentStatements (n : Nat) : List (UInt16 × ValueType) → List Statement
  | [] => []
  | (offset, type) :: rest =>
    ⟨(storeFor type).number, offset, (parameter n).toUInt16, 0⟩ ::
      argumentStatements (n + 1) rest

namespace Request

/-- The statements that a request adds; a jump waits for its distance. -/
def statements : Request → List Statement
  | .op code x y z => [⟨code.number, x, y, z⟩]
  | .call f args =>
    argumentStatements 0 args ++ [⟨(Opcode.call args.length).number, f, 0, 0⟩]
  | .goto _ => [⟨Opcode.goto.number, 0, 0, 0⟩]
  | .branch code condition _ => [⟨code.number, condition, 0, 0⟩]
  | _ => []

/-- The marks that a request adds where there are `n` statements. -/
def marks (n : Nat) : Request → List (Nat × Nat)
  | .mark l => [(l.id, n)]
  | _ => []

/-- The jumps that a request adds where there are `n` statements. -/
def jumps (n : Nat) : Request → List Jump
  | .goto l => [⟨n, .a, l⟩]
  | .branch _ _ l => [⟨n, .b, l⟩]
  | _ => []

/-- Whether a request defines, begins or ends a function. -/
def changesFunctions : Request → Bool
  | .builtin .. | .begin .. | .finish => true
  | _ => false

end Request

/-- What a request does. Globals, statements and jumps are added behind the others, marks before them:
the mark made last is found first. -/
structure Performs (r : Request) (b b' : Assembler) : Prop where
  globals_eq : ∃ words, b'.globals.toList = b.globals.toList ++ words
  statements_eq : b'.statements.toList = b.statements.toList ++ r.statements
  marks_eq : b'.marks = r.marks b.statements.size ++ b.marks
  jumps_eq : b'.jumps.toList = b.jumps.toList ++ r.jumps b.statements.size
  functions_eq : r.changesFunctions = false → b'.functions = b.functions ∧ b'.current = b.current

section Performs

variable {b b' : Assembler} {words : List Int32} {r : Request}

theorem Allocates.performs (h : Allocates words b b') (hstatements : r.statements = [])
    (hmarks : ∀ n, r.marks n = []) (hjumps : ∀ n, r.jumps n = [])
    (hfunctions : r.changesFunctions = false →
      b'.functions = b.functions ∧ b'.current = b.current) : Performs r b b' where
  globals_eq := ⟨words, h.globals_eq⟩
  statements_eq := by rw [hstatements, h.statements_eq, List.append_nil]
  marks_eq := by rw [hmarks, h.marks_eq, List.nil_append]
  jumps_eq := by rw [hjumps, h.jumps_eq, List.append_nil]
  functions_eq := hfunctions

theorem Adds.performs (h : Adds words b b') (hstatements : r.statements = [])
    (hmarks : ∀ n, r.marks n = []) (hjumps : ∀ n, r.jumps n = []) : Performs r b b' :=
  h.toAllocates.performs hstatements hmarks hjumps fun _ => ⟨h.functions_eq, h.current_eq⟩

end Performs

theorem arguments_eq (b : Assembler) (n : Nat) (args : List (UInt16 × ValueType)) :
    b.arguments n args =
      { b with statements := b.statements ++ (argumentStatements n args).toArray } := by
  induction args generalizing b n with
  | nil => simp [arguments, argumentStatements]
  | cons arg args ih =>
    obtain ⟨offset, type⟩ := arg
    rw [arguments, ih, argumentStatements]
    simp [op]

/-- The words that beginning a function adds: the function's number, and room for its parameters. -/
def beginWords (b : Assembler) (types : List ValueType) : List Int32 :=
  Int32.ofNat b.functions.size :: types.flatMap fun t => List.replicate t.size 0

/-- What beginning a function does. -/
theorem begin_eq_ok {b b' : Assembler} {name : String} {types : List ValueType} {f : Int32}
    {offsets : List UInt16} (h : b.begin name types = .ok (f, offsets, b')) :
    b.current = none ∧ types.length ≤ 8 ∧ f = Int32.ofNat b.functions.size ∧
      offsets = (parameterPlaces (b.globals.size + 1) types).map Nat.toUInt16 ∧
      Allocates (b.beginWords types) b b' ∧ b'.current = some b.functions.size ∧
      ∃ s file, b'.functions = b.functions.push
        { firstStatement := Int32.ofNat b.statements.size
          parmStart := Int32.ofNat (b.globals.size + 1)
          name := s
          file
          parameters := Int32.ofNat types.length
          parameterSizes := .ofFn fun i => ((types[i.val]?.map ValueType.size).getD 0).toUInt8 } := by
  unfold begin at h
  split at h
  · cases h
  next hcurrent =>
    split at h
    · cases h
    next hlength =>
      have hnames := (b.adds_string name).trans (adds_string _ sourceFile)
      dsimp only at h
      rw [hnames.functions_eq] at h
      generalize hc : (globalFunction _ name (Int32.ofNat b.functions.size)).2 = c at h
      have hadds : Adds [Int32.ofNat b.functions.size] b c :=
        hc ▸ hnames.trans (adds_global _ name .function _)
      have hall := hadds.trans (c.adds_parameters types)
      have hsize : c.globals.size = b.globals.size + 1 := hadds.size_globals
      rw [hall.functions_eq, congrArg Array.size hall.statements_eq, parameters_fst, hsize] at h
      cases h
      exact ⟨by simpa using hcurrent, by omega, rfl, rfl,
        ⟨hall.globals_eq, hall.statements_eq, hall.marks_eq, hall.jumps_eq⟩, rfl, _, _, rfl⟩

/-- What a builtin function does. -/
theorem builtin_eq (b : Assembler) (name : String) (number : Int32) :
    Allocates [Int32.ofNat b.functions.size] b (b.builtin name number).2 ∧
      (b.builtin name number).2.current = b.current ∧
      ∃ s, (b.builtin name number).2.functions =
        b.functions.push { firstStatement := -number, name := s } := by
  have hname := b.adds_string name
  unfold builtin
  dsimp only
  rw [hname.functions_eq]
  -- The function is there before the global that refers to it.
  have hpush (g : Function) : Allocates [] (b.string name).2
      { (b.string name).2 with functions := b.functions.push g } :=
    ⟨(List.append_nil _).symm, rfl, rfl, rfl⟩
  have hglobal (c : Assembler) := adds_global c name .function [Int32.ofNat b.functions.size]
  exact ⟨(hname.toAllocates.trans (hpush _)).trans (hglobal _).toAllocates,
    (hglobal _).current_eq.trans hname.current_eq, _, (hglobal _).functions_eq⟩

/-- What ending a function does. -/
theorem finish_eq_ok {b b' : Assembler} (h : b.finish = .ok b') :
    Allocates [] b b' ∧ b'.current = none ∧ ∃ f, b.current = some f ∧
      b'.functions = b.functions.modify f fun g =>
        { g with locals := Int32.ofNat b.globals.size - g.parmStart } := by
  unfold finish at h
  split at h
  · cases h
  next f hf =>
    cases h
    exact ⟨⟨(List.append_nil _).symm, rfl, rfl, rfl⟩, rfl, f, hf, rfl⟩

theorem begin_of_perform {b b' : Assembler} {name : String} {types : List ValueType}
    (h : b.perform (.begin name types) = .ok b') :
    ∃ f offsets, b.begin name types = .ok (f, offsets, b') := by
  change (b.begin name types).map (·.2.2) = .ok b' at h
  cases hb : b.begin name types with
  | error e => rw [hb] at h; cases h
  | ok x =>
    rw [hb] at h
    cases h
    exact ⟨_, _, rfl⟩

/-- **A request adds to the program and changes nothing of it but functions.** -/
theorem performs {b b' : Assembler} {r : Request} (h : b.perform r = .ok b') : Performs r b b' := by
  have hadds {words : List Int32} (h : Adds words b b') := h.performs (r := r)
  have hallocates {words : List Int32} (h : Allocates words b b') := h.performs (r := r)
  have hsame : ∃ words, b.globals.toList = b.globals.toList ++ words := ⟨[], by simp⟩
  cases r with
  | string s => cases h; exact hadds (b.adds_string s) rfl (fun _ => rfl) fun _ => rfl
  | global name type words =>
    cases h; exact hadds (b.adds_global name type words) rfl (fun _ => rfl) fun _ => rfl
  | globalFloat name v =>
    cases h; exact hadds (b.adds_global name .float _) rfl (fun _ => rfl) fun _ => rfl
  | globalVector name v =>
    cases h; exact hadds (b.adds_globalVector name v) rfl (fun _ => rfl) fun _ => rfl
  | globalString name v =>
    cases h; exact hadds (b.adds_globalString name v) rfl (fun _ => rfl) fun _ => rfl
  | globalEntity name =>
    cases h; exact hadds (b.adds_global name .entity _) rfl (fun _ => rfl) fun _ => rfl
  | globalFunction name f =>
    cases h; exact hadds (b.adds_global name .function _) rfl (fun _ => rfl) fun _ => rfl
  | localStorage type =>
    cases h; exact hadds (b.adds_global "" type _) rfl (fun _ => rfl) fun _ => rfl
  | field name type =>
    cases h; exact hadds (b.adds_field name type) rfl (fun _ => rfl) fun _ => rfl
  | label text =>
    cases h; exact hadds (b.adds_describe _ _ _ _ _ _) rfl (fun _ => rfl) fun _ => rfl
  | builtin name number =>
    cases h
    exact hallocates (b.builtin_eq name number).1 rfl (fun _ => rfl) (fun _ => rfl) nofun
  | begin name types =>
    obtain ⟨f, offsets, hb⟩ := begin_of_perform h
    obtain ⟨-, -, -, -, hb, -⟩ := begin_eq_ok hb
    exact hallocates hb rfl (fun _ => rfl) (fun _ => rfl) nofun
  | finish => exact hallocates (finish_eq_ok h).1 rfl (fun _ => rfl) (fun _ => rfl) nofun
  | op code x y z =>
    cases h
    exact ⟨hsame, by simp [op, Request.statements], rfl, by simp [op, Request.jumps],
      fun _ => ⟨rfl, rfl⟩⟩
  | call f args =>
    cases h
    refine ⟨?_, ?_, ?_, ?_, fun _ => ?_⟩ <;> unfold call <;> rw [arguments_eq]
    · exact hsame
    · simp [op, Request.statements]
    · rfl
    · simp [op, Request.jumps]
    · exact ⟨rfl, rfl⟩
  | mark l =>
    cases h
    exact ⟨hsame, by simp [mark, Request.statements], rfl, by simp [mark, Request.jumps],
      fun _ => ⟨rfl, rfl⟩⟩
  | goto l =>
    cases h
    exact ⟨hsame, by simp [goto, op, Request.statements], rfl, by simp [goto, Request.jumps],
      fun _ => ⟨rfl, rfl⟩⟩
  | branch code condition l =>
    cases h
    exact ⟨hsame, by simp [branch, op, Request.statements], rfl, by simp [branch, Request.jumps],
      fun _ => ⟨rfl, rfl⟩⟩

/-! ## Sessions -/

theorem Performs.size_statements {b b' : Assembler} {r : Request} (h : Performs r b b') :
    b'.statements.size = b.statements.size + r.statements.length := by
  rw [← Array.length_toList, h.statements_eq, List.length_append, Array.length_toList]

/-- What was there stays where it is, and new jumps belong to new statements. -/
structure Extends (b b' : Assembler) : Prop where
  globals : b.globals.toList <+: b'.globals.toList
  statements : b.statements.toList <+: b'.statements.toList
  jumps : ∃ js, b'.jumps.toList = b.jumps.toList ++ js ∧
    ∀ j ∈ js, b.statements.size ≤ j.statement ∧ j.statement < b'.statements.size

namespace Extends

variable {b b' b'' : Assembler}

theorem refl (b : Assembler) : Extends b b where
  globals := List.prefix_rfl
  statements := List.prefix_rfl
  jumps := ⟨[], (List.append_nil _).symm, fun _ h => by cases h⟩

theorem size_globals_le (h : Extends b b') : b.globals.size ≤ b'.globals.size := by
  simpa using h.globals.length_le

theorem size_statements_le (h : Extends b b') : b.statements.size ≤ b'.statements.size := by
  simpa using h.statements.length_le

theorem trans (h : Extends b b') (h' : Extends b' b'') : Extends b b'' where
  globals := h.globals.trans h'.globals
  statements := h.statements.trans h'.statements
  jumps := by
    obtain ⟨js, hjs, hnew⟩ := h.jumps
    obtain ⟨js', hjs', hnew'⟩ := h'.jumps
    refine ⟨js ++ js', by rw [hjs', hjs, List.append_assoc], fun j hj => ?_⟩
    have hle := h.size_statements_le
    have hle' := h'.size_statements_le
    rcases List.mem_append.mp hj with hj | hj
    · have hbounds := hnew j hj
      omega
    · have hbounds := hnew' j hj
      omega

end Extends

theorem Request.statement_of_mem_jumps {r : Request} {n : Nat} {j : Jump} (h : j ∈ r.jumps n) :
    j.statement = n ∧ r.statements.length = 1 := by
  cases r with
  | goto l => cases List.mem_singleton.mp h; exact ⟨rfl, rfl⟩
  | branch code condition l => cases List.mem_singleton.mp h; exact ⟨rfl, rfl⟩
  | _ => cases h

theorem Performs.extends {b b' : Assembler} {r : Request} (h : Performs r b b') :
    Extends b b' where
  globals := by
    obtain ⟨words, hwords⟩ := h.globals_eq
    exact ⟨words, hwords.symm⟩
  statements := ⟨r.statements, h.statements_eq.symm⟩
  jumps := by
    refine ⟨_, h.jumps_eq, fun j hj => ?_⟩
    obtain ⟨hstatement, hlength⟩ := Request.statement_of_mem_jumps hj
    rw [hstatement, h.size_statements, hlength]
    omega

theorem extends_of_performAll {b b' : Assembler} {rs : List Request}
    (h : b.performAll rs = .ok b') : Extends b b' := by
  induction rs generalizing b with
  | nil => cases h; exact .refl _
  | cons r rs ih =>
    obtain ⟨c, hc, h⟩ := performAll_cons_eq_ok.mp h
    exact (performs hc).extends.trans (ih h)

/-- What `new` begins with: one statement, no jump and no mark, the null function, and the globals up
to the last one of the system. -/
theorem new_eq : new.statements = #[{}] ∧ new.jumps = #[] ∧ new.marks = [] ∧
    new.functions = #[{}] ∧ new.current = none ∧ new.globals.size = 32 := by
  refine ⟨rfl, rfl, rfl, rfl, rfl, rfl⟩

/-! ## Building -/

section Link

variable {marks : List (Nat × Nat)} {statements statements' : Array Statement}

theorem link_cons_eq_ok {j : Jump} {js : List Jump} :
    link marks statements (j :: js) = .ok statements' ↔
      ∃ target, marks.lookup j.label.id = some target ∧ link marks
        (statements.modify j.statement (setDistance (distance j.statement target) j.operand)) js =
          .ok statements' := by
  rw [link]
  cases marks.lookup j.label.id <;> simp

theorem size_link {js : List Jump} (h : link marks statements js = .ok statements') :
    statements'.size = statements.size := by
  induction js generalizing statements with
  | nil => cases h; rfl
  | cons j js ih =>
    obtain ⟨_, -, h⟩ := link_cons_eq_ok.mp h
    rw [ih h, Array.size_modify]

/-- Linking changes only statements of jumps. -/
theorem link_getElem?_of_ne {js : List Jump} {i : Nat}
    (h : link marks statements js = .ok statements') (hi : ∀ j ∈ js, j.statement ≠ i) :
    statements'[i]? = statements[i]? := by
  induction js generalizing statements with
  | nil => cases h; rfl
  | cons j js ih =>
    obtain ⟨target, -, h⟩ := link_cons_eq_ok.mp h
    rw [ih h fun k hk => hi k (List.mem_cons_of_mem _ hk), Array.getElem?_modify,
      if_neg (hi j List.mem_cons_self)]

/-- Linking fills in the distance of a jump whose statement no other jump has. -/
theorem link_getElem?_of_jump {js js' : List Jump} {j : Jump}
    (h : link marks statements (js ++ j :: js') = .ok statements')
    (hbefore : ∀ k ∈ js, k.statement ≠ j.statement)
    (hafter : ∀ k ∈ js', k.statement ≠ j.statement) :
    ∃ target, marks.lookup j.label.id = some target ∧ statements'[j.statement]? =
      statements[j.statement]?.map (setDistance (distance j.statement target) j.operand) := by
  induction js generalizing statements with
  | nil =>
    obtain ⟨target, htarget, h⟩ := link_cons_eq_ok.mp h
    refine ⟨target, htarget, ?_⟩
    rw [link_getElem?_of_ne h hafter, Array.getElem?_modify, if_pos rfl]
  | cons k js ih =>
    obtain ⟨_, -, h⟩ := link_cons_eq_ok.mp h
    obtain ⟨target, htarget, heq⟩ := ih h fun i hi => hbefore i (List.mem_cons_of_mem _ hi)
    refine ⟨target, htarget, ?_⟩
    rw [heq, Array.getElem?_modify, if_neg (hbefore k List.mem_cons_self)]

/-- Linking fails where a jump has no mark, and only there. -/
theorem link_cases (marks : List (Nat × Nat)) (statements : Array Statement) (js : List Jump) :
    (∃ text source, link marks statements js = .error (.unmarkedLabel text source) ∧
      ∃ j ∈ js, marks.lookup j.label.id = none) ∨
    (∃ statements', link marks statements js = .ok statements' ∧
      ∀ j ∈ js, marks.lookup j.label.id ≠ none) := by
  induction js generalizing statements with
  | nil => exact .inr ⟨_, rfl, fun _ h => by cases h⟩
  | cons j js ih =>
    rw [link]
    cases hlookup : marks.lookup j.label.id with
    | none => exact .inl ⟨_, _, rfl, j, List.mem_cons_self, hlookup⟩
    | some target =>
      dsimp only
      rcases ih (statements.modify j.statement _) with
        ⟨text, source, herror, k, hk, hnone⟩ | ⟨statements', hok, hmarked⟩
      · exact .inl ⟨text, source, herror, k, List.mem_cons_of_mem _ hk, hnone⟩
      · refine .inr ⟨statements', hok, ?_⟩
        rintro k (_ | ⟨_, hk⟩)
        · rw [hlookup]
          exact Option.some_ne_none target
        · exact hmarked k hk

end Link

theorem build_eq_ok {b : Assembler} {p : Program} (h : b.build = .ok p) :
    link b.marks b.statements b.jumps.toList = .ok p.statements ∧ p.functions = b.functions ∧
      p.globals = b.globals := by
  unfold build at h
  split at h
  · cases h
  next statements hlink =>
    cases h
    exact ⟨hlink, rfl, rfl⟩

/-- Building a program fails where a jump has no mark, and only there. -/
theorem build_cases (b : Assembler) :
    (∃ text source, b.build = .error (.unmarkedLabel text source) ∧
      ∃ j ∈ b.jumps.toList, b.marks.lookup j.label.id = none) ∨
    (∃ p, b.build = .ok p ∧ ∀ j ∈ b.jumps.toList, b.marks.lookup j.label.id ≠ none) := by
  unfold build
  rcases link_cases b.marks b.statements b.jumps.toList with
    ⟨text, source, herror, hnone⟩ | ⟨statements, hok, hmarked⟩
  · rw [herror]
    exact .inl ⟨text, source, rfl, hnone⟩
  · rw [hok]
    exact .inr ⟨_, rfl, hmarked⟩

/-! ## The statements of a request -/

section Statements

variable {b c d : Assembler} {r : Request} {p : Program}

theorem jump_lt_size (h : Extends new b) {j : Jump} (hj : j ∈ b.jumps.toList) :
    j.statement < b.statements.size := by
  obtain ⟨js, hjs, hnew⟩ := h.jumps
  rw [new_eq.2.1, List.nil_append] at hjs
  exact (hnew j (hjs ▸ hj)).2

/-- The jumps that other requests than `r` add have no statement of `r`. -/
theorem jumps_of_request (hc : Extends new c) (hr : Performs r c d) (hd : Extends d b) :
    ∃ js js', b.jumps.toList = js ++ r.jumps c.statements.size ++ js' ∧
      (∀ j ∈ js, j.statement < c.statements.size) ∧
      ∀ j ∈ js', c.statements.size + r.statements.length ≤ j.statement := by
  obtain ⟨js, hjs, hnew⟩ := hd.jumps
  refine ⟨c.jumps.toList, js, by rw [hjs, hr.jumps_eq], fun j hj => jump_lt_size hc hj, ?_⟩
  intro j hj
  rw [← hr.size_statements]
  exact (hnew j hj).1

theorem getElem?_of_request (hr : Performs r c d) (hd : Extends d b) {k : Nat}
    (hk : k < r.statements.length) :
    b.statements[c.statements.size + k]? = r.statements[k]? := by
  have hlt : c.statements.size + k < d.statements.toList.length := by
    rw [Array.length_toList, hr.size_statements]
    omega
  obtain ⟨rest, hrest⟩ := hd.statements
  rw [← Array.getElem?_toList, ← hrest, List.getElem?_append_left hlt, hr.statements_eq,
    List.getElem?_append_right (by simp), Array.length_toList, Nat.add_sub_cancel_left]

/-- **The statements of a request stand in the program that is built** where the request was made, when
none of them is a jump. -/
theorem getElem?_build (hc : Extends new c) (hr : Performs r c d) (hd : Extends d b)
    (hp : b.build = .ok p) (hjumps : r.jumps c.statements.size = []) {k : Nat}
    (hk : k < r.statements.length) :
    p.statements[c.statements.size + k]? = r.statements[k]? := by
  obtain ⟨js, js', hsplit, hbefore, hafter⟩ := jumps_of_request hc hr hd
  obtain ⟨hlink, -, -⟩ := build_eq_ok hp
  rw [← getElem?_of_request hr hd hk]
  refine link_getElem?_of_ne hlink fun j hj => ?_
  rw [hsplit, hjumps, List.append_nil] at hj
  rcases List.mem_append.mp hj with hj | hj
  · have hlt := hbefore j hj
    omega
  · have hle := hafter j hj
    omega

/-- **A jump stands in the program that is built** with the distance to the mark of its label. -/
theorem getElem?_build_of_jump (hc : Extends new c) (hr : Performs r c d) (hd : Extends d b)
    (hp : b.build = .ok p) {j : Jump} (hj : r.jumps c.statements.size = [j]) :
    ∃ target, b.marks.lookup j.label.id = some target ∧ p.statements[c.statements.size]? =
      r.statements[0]?.map (setDistance (distance c.statements.size target) j.operand) := by
  obtain ⟨js, js', hsplit, hbefore, hafter⟩ := jumps_of_request hc hr hd
  obtain ⟨hlink, -, -⟩ := build_eq_ok hp
  obtain ⟨hstatement, hlength⟩ :=
    Request.statement_of_mem_jumps (hj ▸ List.mem_singleton_self j : j ∈ r.jumps c.statements.size)
  rw [hsplit, hj, List.append_assoc, List.singleton_append] at hlink
  obtain ⟨target, htarget, heq⟩ := link_getElem?_of_jump hlink
    (fun k hk => by have hlt := hbefore k hk; omega) fun k hk => by have hle := hafter k hk; omega
  rw [hstatement] at heq
  refine ⟨target, htarget, ?_⟩
  rw [heq, ← getElem?_of_request hr hd (k := 0) (by omega)]
  rfl

end Statements

end QuakeVm.Assembler
