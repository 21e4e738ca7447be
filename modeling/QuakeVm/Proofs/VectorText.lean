import QuakeVm.Proofs.Directives
import QuakeVm.Proofs.Numerals
import Mathlib.Algebra.GroupWithZero.Nat

/-!
# Vectors are written as three numbers

A directive for a vector is carried out in a roundabout way: its flags, its width and its precision, as
they ended up, are written down as a directive for one number, and this text is read again for each of
the three components. What is read again need not be what was written. A width of zero is written as
`0`, which is a flag. But the field that is written under the layout that is read (`Layout.reread`) is
the same (`float_reread`), so that a vector is its three components with spaces between them, as far as
the limit allows (`renderVector_eq`).
-/

namespace QuakeVm.Format

/-! ## Numerals -/

/-- The decimal numeral of a number. -/
def Numeral.ofNat (n : Nat) : Numeral where
  digits := Number.decimal n
  ne_nil := fun h => Number.digits_ne_nil 10 n (List.map_eq_nil_iff.mp h)
  isDigit := Number.isDigit_map_digitByte (Number.Spells.digits (by decide) n) false

theorem Numeral.value_ofNat (n : Nat) : (ofNat n).value = n := by
  have hspells := Number.Spells.digits (b := 10) (by decide) n
  have hdigits : (ofNat n).digits.map Bytes.digitValue = Number.digits 10 n := by
    unfold ofNat Number.decimal Number.numeral
    rw [List.map_map]
    exact (List.map_congr_left fun d hd => Number.digitValue_digitByte (hspells.lt d hd) false).trans
      (List.map_id _)
  rw [value, hdigits, hspells.value]

theorem Numeral.head?_ofNat {n : Nat} (hn : n ≠ 0) : (ofNat n).digits.head? ≠ some 0x30 := by
  intro h
  unfold ofNat Number.decimal Number.numeral at h
  rw [List.head?_map, Option.map_eq_some_iff] at h
  obtain ⟨d, hd, hbyte⟩ := h
  have hlt := (Number.Spells.digits (b := 10) (by decide) n).lt d (List.mem_of_mem_head? hd)
  have hzero : d = 0 := Number.digitByte_injective (by omega) (by decide) hbyte
  exact Number.head?_digits_ne_zero (by decide) hn (hzero ▸ hd)

/-! ## The directive for a component -/

/-- The flags that are set, in the order in which they are written. -/
def Flags.toList (f : Flags) : List Flag :=
  (if f.alt then [.alt] else []) ++ (if f.zero then [.zero] else []) ++
    (if f.left then [.left] else []) ++ (if f.space then [.space] else []) ++
    (if f.plus then [.plus] else [])

theorem Flags.ofList_toList (f : Flags) : Flags.ofList f.toList = f := by
  obtain ⟨alt, zero, left, space, plus⟩ := f
  revert alt zero left space plus
  decide

theorem Flags.map_byte_toList (f : Flags) : f.toList.map Flag.byte =
    (if f.alt then [0x23] else []) ++ (if f.zero then [0x30] else []) ++
      (if f.left then [0x2d] else []) ++ (if f.space then [0x20] else []) ++
      (if f.plus then [0x2b] else []) := by
  simp only [Flags.toList, List.map_append, apply_ite (List.map Flag.byte)]
  rfl

namespace Layout

/-- The directive for one component. A width of zero is one more flag. -/
def spelling (l : Layout) (upper : Bool) : Spelling where
  flags := l.flags.toList ++ if l.width = some 0 then [.zero] else []
  width := l.width.bind fun w =>
    if h : w = 0 then none else some (.numeral (.ofNat w) (Numeral.head?_ofNat h))
  precision := l.precision.map fun p => .numeral (.ofNat p)
  conversion := .general upper

/-- The numeral of a width is a width, or the flag `0` where the width is zero. -/
theorem width_spelling (l : Layout) (upper : Bool) :
    (if l.width = some 0 then [Flag.zero] else []).map Flag.byte ++
        (l.spelling upper).width.elim [] Width.text = l.width.elim [] Number.decimal := by
  unfold spelling
  cases l.width with
  | none => rfl
  | some w =>
    by_cases hw : w = 0
    · subst hw
      simp [Number.decimal, Number.numeral, Number.digits_of_lt, Number.digitByte, Flag.byte]
    · simp [hw, Width.text, Numeral.ofNat]

theorem precision_spelling (l : Layout) (upper : Bool) :
    (l.spelling upper).precision.elim [] Precision.text =
      l.precision.elim [] fun p => 0x2e :: Number.decimal p := by
  unfold spelling
  cases l.precision <;> rfl

theorem componentText_eq (l : Layout) (upper : Bool) :
    l.componentText upper = (Piece.directive (l.spelling upper)).text := by
  have hflags : (l.spelling upper).flags.map Flag.byte = l.flags.toList.map Flag.byte ++
      (if l.width = some 0 then [Flag.zero] else []).map Flag.byte := List.map_append
  have hending : (l.spelling upper).ending = [if upper then 0x47 else 0x67] := rfl
  have hbody : (l.spelling upper).body = (l.spelling upper).afterPosition := rfl
  rw [Piece.text, hbody, Spelling.afterPosition, Spelling.afterFlags, Spelling.afterWidth, hending,
    hflags, List.append_assoc, ← List.append_assoc _ (Option.elim _ _ _), width_spelling,
    precision_spelling, Flags.map_byte_toList, componentText]
  cases l.width <;> cases l.precision <;>
    simp only [Option.elim, List.cons_append, List.nil_append, List.append_assoc]

/-! ## Reading the directive again -/

/-- The width and the precision are within the limit of rendering. -/
structure Capped (l : Layout) : Prop where
  width : ∀ w ∈ l.width, w ≤ 1023
  precision : ∀ p ∈ l.precision, p ≤ 1023

/-- The layout that is read from the directive for a component. -/
def reread (l : Layout) : Layout :=
  if l.width = some 0 then { l with flags := { l.flags with zero := true }, width := none } else l

theorem capped_layoutAt (d : Spelling) (args : Arguments) (next : Nat) :
    (d.layoutAt args next).Capped where
  width := by
    intro w hw
    obtain ⟨x, -, rfl⟩ := Option.map_eq_some_iff.mp hw
    exact Nat.min_le_right _ _
  precision := by
    intro p hp
    obtain ⟨x, -, hx⟩ := Option.bind_eq_some_iff.mp hp
    dsimp only at hx
    split at hx
    · cases hx
    · cases hx
      exact Nat.min_le_right _ _

theorem flagsAt_spelling (l : Layout) (upper : Bool) (args : Arguments) (next : Nat) :
    (l.spelling upper).flagsAt args next = l.reread.flags := by
  -- No width that is written here is negative, so the flags are just those that are written.
  have hleft : ((l.spelling upper).width.any fun w => w.value args next < 0) = false := by
    unfold spelling
    cases l.width with
    | none => rfl
    | some w =>
      by_cases hw : w = 0
      · simp [hw]
      · simp [hw, Width.value, Numeral.value_ofNat, Int.not_lt.mpr (Int.natCast_nonneg w)]
  have hflags : (l.spelling upper).flagsAt args next = .ofList (l.spelling upper).flags := by
    unfold Spelling.flagsAt Flags.ofList
    rw [hleft, Bool.or_false]
  rw [hflags, reread, spelling]
  split
  · conv_rhs => rw [← Flags.ofList_toList l.flags]
    simp [Flags.ofList]
  · rw [List.append_nil, Flags.ofList_toList]

theorem layoutAt_spelling {l : Layout} (hl : l.Capped) (upper : Bool) (args : Arguments)
    (next : Nat) : (l.spelling upper).layoutAt args next = l.reread := by
  have hwidth : ((l.spelling upper).width.map fun w => min (w.value args next).natAbs 1023) =
      l.reread.width := by
    unfold spelling reread
    cases hw : l.width with
    | none => simp [hw]
    | some w =>
      by_cases hzero : w = 0
      · simp [hzero]
      · simp [hzero, hw, Width.value, Numeral.value_ofNat, hl.width w hw]
  have hprecision (m : Nat) : ((l.spelling upper).precision.bind fun p =>
      if p.value args m < 0 then none else some (min (p.value args m).toNat 1023)) =
      l.reread.precision := by
    have hreread : l.reread.precision = l.precision := by
      unfold reread
      split <;> rfl
    unfold spelling
    rw [hreread]
    cases hp : l.precision with
    | none => rfl
    | some p => simp [Precision.value, Numeral.value_ofNat, hl.precision p hp]
  unfold Spelling.layoutAt
  rw [flagsAt_spelling, hwidth, hprecision]

/-- Reading the directive again makes no difference to what is written. -/
theorem float_reread (l : Layout) (n : Notation) (upper : Bool) (v : Number.Exact) :
    l.reread.float n upper v = l.float n upper v := by
  unfold reread
  split
  · rename_i hwidth
    -- Without a width nothing is padded, so that it does not matter with what.
    simp [float, field, sign, hwidth]
  · rfl

end Layout

/-! ## Directives without a vector -/

/-- The item is not a directive for a vector. -/
def Item.Plain : Item → Prop
  | .directive d => ∀ upper, d.conversion ≠ .vector upper
  | _ => True

theorem Item.render_of_plain {i : Item} (hi : i.Plain) (f g : Layout → Bool → Vec3 → Bytes)
    (args : Arguments) (next : Nat) : i.render f args next = i.render g args next := by
  cases i with
  | literal c => rfl
  | percent => rfl
  | malformed tail => rfl
  | directive d =>
    have hconvert (l : Layout) (source : Source) (n : Nat) :
        convert f l args source n d.conversion = convert g l args source n d.conversion := by
      cases hc : d.conversion with
      | vector upper => exact absurd hc (hi upper)
      | _ => rfl
    unfold Item.render
    simp only [hconvert]

/-- How vectors are written does not matter to a format string without one. -/
theorem renderFrom_of_plain {is : List Item} (his : ∀ i ∈ is, i.Plain)
    (f g : Layout → Bool → Vec3 → Bytes) (args : Arguments) (next written : Nat) :
    renderFrom f args is next written = renderFrom g args is next written := by
  induction is generalizing next written with
  | nil => rfl
  | cons i rest ih =>
    rw [List.forall_mem_cons] at his
    unfold renderFrom
    rw [Item.render_of_plain his.1 f g]
    simp only [ih his.2]

/-! ## A vector -/

namespace Layout

/-- One component as the general notation writes it. -/
def component (l : Layout) (upper : Bool) (x : Float32) : Bytes :=
  l.float .general upper (.ofFloat32 x)

/-- The pieces that a vector is written as. -/
def components (l : Layout) (upper : Bool) : List Piece :=
  [.directive (l.spelling upper), .literal 0x20 (by decide), .directive (l.spelling upper),
    .literal 0x20 (by decide), .directive (l.spelling upper)]

theorem plain_components (l : Layout) (upper : Bool) :
    ∀ i ∈ (l.components upper).map Piece.item, i.Plain := by
  have hdirective : (Piece.directive (l.spelling upper)).item.Plain := fun _ => nofun
  intro i hi
  obtain ⟨p, hp, rfl⟩ := List.mem_map.mp hi
  cases p with
  | literal c h => trivial
  | percent => trivial
  | directive d =>
    have hd : d = l.spelling upper := by simpa [components] using hp
    exact hd ▸ hdirective

theorem widthTakes_spelling (l : Layout) (upper : Bool) : (l.spelling upper).widthTakes = 0 := by
  unfold Spelling.widthTakes spelling
  cases l.width with
  | none => rfl
  | some w => by_cases hw : w = 0 <;> simp [hw]

theorem precisionTakes_spelling (l : Layout) (upper : Bool) :
    (l.spelling upper).precisionTakes = 0 := by
  unfold Spelling.precisionTakes spelling
  cases l.precision <;> rfl

/-- A component directive takes one argument. -/
theorem takes_spelling (l : Layout) (upper : Bool) :
    (Piece.directive (l.spelling upper)).takes = 1 := by
  rw [Piece.takes, widthTakes_spelling, precisionTakes_spelling]
  rfl

/-- A directive in general notation writes its argument as one component. -/
theorem output_general {d : Spelling} {upper : Bool} (hd : d.conversion = .general upper)
    (hsource : d.source = .float) (args : Arguments) (next : Nat) :
    (Piece.directive d).output args next =
      (d.layoutAt args next).component upper (args.float (d.valueAt next)) := by
  rw [Piece.output, hd, hsource]
  rfl

theorem output_spelling {l : Layout} (hl : l.Capped) (upper : Bool) (args : Arguments)
    (next : Nat) : (Piece.directive (l.spelling upper)).output args next =
      l.component upper (args.float next) := by
  have hvalue : (l.spelling upper).valueAt next = next := by
    rw [Spelling.valueAt, widthTakes_spelling, precisionTakes_spelling]
    rfl
  rw [output_general rfl rfl, layoutAt_spelling hl, hvalue, component, float_reread]
  rfl

/-- **A vector is three components with spaces between them**, cut at the limit. -/
theorem renderVector_eq {l : Layout} (hl : l.Capped) (upper : Bool) (v : Vec3) :
    renderVector l upper v = (l.component upper v.x ++ 0x20 ::
      (l.component upper v.y ++ 0x20 :: l.component upper v.z)).take 1023 := by
  have htext : l.componentText upper ++ 0x20 :: l.componentText upper ++ 0x20 ::
      l.componentText upper = (l.components upper).flatMap Piece.text := by
    rw [componentText_eq]
    simp [components, Piece.text]
  have houtputs : outputs (.ofValues [.float v.x, .float v.y, .float v.z]) 0 (l.components upper) =
      l.component upper v.x ++ 0x20 :: (l.component upper v.y ++ 0x20 :: l.component upper v.z) := by
    simp only [components, outputs, output_spelling hl, takes_spelling]
    simp [Piece.output, Piece.takes, Arguments.ofValues]
  unfold renderVector renderWith
  dsimp only
  rw [htext, items_flatMap, renderFrom_of_plain (l.plain_components upper) _ renderVector,
    ← houtputs]
  exact (renderFrom_spelled _ _ 0 0).1

end Layout

theorem outputs_append (args : Arguments) (next : Nat) (ps qs : List Piece) :
    outputs args next (ps ++ qs) =
      outputs args next ps ++ outputs args (next + (ps.map Piece.takes).sum) qs := by
  induction ps generalizing next with
  | nil => rfl
  | cons p rest ih =>
    rw [List.cons_append, outputs, ih, outputs, List.append_assoc, List.map_cons, List.sum_cons,
      Nat.add_assoc]

/-- **A vector is written as three numbers.** A directive for a vector may have any flags, and a width
and a precision that are left out, written out or taken from the arguments, where they may be zero or
negative. It stands anywhere in a format string. With the layout `l` that these give, it writes the
first 1023 bytes of the three components with spaces between them. A component is what a directive in
general notation writes that ends up with the same layout, whatever it looks like. -/
theorem vectors_as_components (before after : List Piece) {d : Spelling} {upper : Bool}
    (hd : d.conversion = .vector upper) (args : Arguments) :
    let next := (before.map Piece.takes).sum
    let l := d.layoutAt args next
    let v := args.vector (d.valueAt next)
    (render ((before ++ .directive d :: after).flatMap Piece.text) args).1 =
        (outputs args 0 before ++
          ((l.component upper v.x ++ 0x20 :: (l.component upper v.y ++ 0x20 ::
            l.component upper v.z)).take 1023 ++
          outputs args (next + (Piece.directive d).takes) after)).take 1023 ∧
      ∀ (g : Spelling) (others : Arguments) (m : Nat), g.conversion = .general upper →
        g.source = .float → g.layoutAt others m = l →
        (Piece.directive g).output others m = l.component upper (others.float (g.valueAt m)) := by
  intro next l v
  constructor
  · have houtput : (Piece.directive d).output args next = renderVector l upper v := by
      rw [Piece.output, hd]
      rfl
    unfold render renderWith
    dsimp only
    rw [items_flatMap, ← Layout.renderVector_eq (Layout.capped_layoutAt d args next), ← houtput]
    have hall : outputs args 0 (before ++ .directive d :: after) = outputs args 0 before ++
        ((Piece.directive d).output args next ++
          outputs args (next + (Piece.directive d).takes) after) := by
      rw [outputs_append, Nat.zero_add, outputs]
    rw [← hall]
    exact (renderFrom_spelled args _ 0 0).1
  · intro g others m hg hsource hlayout
    rw [Layout.output_general hg hsource, hlayout]

/-- `%*v`. -/
def starVector : Spelling := { width := some .star, conversion := .vector false }

/-- `%-4g`. -/
def leftGeneral : Spelling where
  flags := [.left]
  width := some (.numeral (.ofNat 4) (Numeral.head?_ofNat (by decide)))
  conversion := .general false

/-- The width `-4` and the vector `1`, `2.5`, `0`. -/
def narrowVector : Arguments :=
  .ofValues [.float (.ofBits 0xc0800000),
    .vector ⟨.ofBits 0x3f800000, .ofBits 0x40200000, .ofBits 0⟩]

/-- A negative width through a star gives the layout of `%-4g`. -/
theorem vectors_as_components_negative :
    starVector.conversion = .vector false ∧
      (render (Bytes.ofText "<%*v>") narrowVector).1 = Bytes.ofText "<1    2.5  0   >" ∧
      (Piece.directive leftGeneral).output (.ofValues [.float (.ofBits 0x40200000)]) 0 =
        Bytes.ofText "2.5 " := by
  obtain ⟨hvector, hgeneral⟩ := vectors_as_components [.literal 0x3c (by decide)]
    [.literal 0x3e (by decide)] (d := starVector) rfl narrowVector
  have hnumber := hgeneral leftGeneral (.ofValues [.float (.ofBits 0x40200000)]) 0 rfl rfl
    (by decide +kernel)
  exact ⟨rfl, hvector.trans (by decide +kernel), hnumber.trans (by decide +kernel)⟩

end QuakeVm.Format
