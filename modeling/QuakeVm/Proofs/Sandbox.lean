import QuakeVm.Sandbox

/-!
# The sandbox holds

A program that names a file gets a path in the data directory of the game, or, to read, one of a few
kinds of files right below the game directory. To say so paths are brought into a normal form first:
empty steps and `.` are left out, and `..` takes a step back (`Path.normalize`). There are no links,
so the normal form is where a path leads to.

Two arguments carry this. A safe name has no step `..`, so in normal form its steps only follow those
of the directory it is joined to. And a star in a pattern does not match a slash, so a name that one
of the patterns of the game directory matches has two steps.
-/

namespace QuakeVm

/-! ## Splitting at slashes -/

namespace Text

variable {p : Char → Bool}

theorem fields_ne_nil (p : Char → Bool) (l : List Char) : fields p l ≠ [] := by
  cases l with
  | nil => exact nofun
  | cons c rest =>
    unfold fields
    split
    · exact nofun
    · split <;> exact nofun

theorem fields_eq_splitOnP (p : Char → Bool) (s : List Char) : fields p s = s.splitOnP p := by
  induction s with
  | nil => rfl
  | cons c rest ih =>
    rw [fields, List.splitOnP_cons_eq_if_modifyHead, ih]
    cases hrest : rest.splitOnP p with
    | nil => exact absurd hrest (List.splitOnP_ne_nil p rest)
    | cons field more => rfl

theorem fields_cons_of_pos {c : Char} (hc : p c = true) (l : List Char) :
    fields p (c :: l) = [] :: fields p l := by
  rw [fields, if_pos hc]

theorem fields_append (l l' : List Char) {c : Char} (hc : p c = true) :
    fields p (l ++ c :: l') = fields p l ++ fields p l' := by
  induction l with
  | nil =>
    rw [List.nil_append, fields_cons_of_pos hc]
    rfl
  | cons d rest ih =>
    rw [List.cons_append, fields, fields, ih]
    split
    · rfl
    · cases hrest : fields p rest with
      | nil => exact absurd hrest (fields_ne_nil p rest)
      | cons field more => rfl

theorem fields_eq_singleton {l : List Char} (h : ∀ c ∈ l, p c = false) : fields p l = [l] := by
  induction l with
  | nil => rfl
  | cons c rest ih =>
    rw [fields, ih fun d hd => h d (List.mem_cons_of_mem c hd), h c List.mem_cons_self]
    rfl

theorem isPrefix_of_fields {l field : List Char} {more : List (List Char)}
    (h : fields p l = field :: more) : field <+: l := by
  induction l generalizing field more with
  | nil =>
    cases h
    exact List.nil_prefix
  | cons c rest ih =>
    rw [fields] at h
    split at h
    · cases h
      exact List.nil_prefix
    · split at h
      · exact absurd ‹_› (fields_ne_nil p rest)
      · rename_i hrest
        cases h
        exact List.cons_prefix_cons.mpr ⟨rfl, ih hrest⟩

/-- A field stands somewhere in the text. -/
theorem isInfix_of_mem_fields {l field : List Char} (h : field ∈ fields p l) : field <:+: l := by
  induction l generalizing field with
  | nil =>
    rw [fields, List.mem_singleton] at h
    exact h ▸ List.nil_infix
  | cons c rest ih =>
    have hrest {s : List Char} (hs : s ∈ fields p rest) : s <:+: c :: rest :=
      (ih hs).trans (List.suffix_cons c rest).isInfix
    rw [fields] at h
    split at h
    · rcases List.mem_cons.mp h with rfl | h
      · exact List.nil_infix
      · exact hrest h
    · cases hfields : fields p rest with
      | nil => exact absurd hfields (fields_ne_nil p rest)
      | cons first more =>
        rw [hfields] at h
        rcases List.mem_cons.mp h with rfl | h
        · exact (List.cons_prefix_cons.mpr ⟨rfl, isPrefix_of_fields hfields⟩).isInfix
        · exact hrest (hfields ▸ List.mem_cons_of_mem first h)

end Text

/-! ## Normal forms of paths -/

namespace Path

/-- Where a path leads to: whether it begins at the root, and the steps from there. -/
structure Normal where
  absolute : Bool
  steps : List String
  deriving Repr, DecidableEq

/-- The path some steps further down. -/
def Normal.below (p : Normal) (l : List String) : Normal := { p with steps := p.steps ++ l }

theorem Normal.below_below (p : Normal) (l l' : List String) :
    (p.below l).below l' = p.below (l ++ l') := by
  unfold below
  rw [List.append_assoc]

/-- One more step, with the steps so far in reverse. A step back from the root stays there, and one
from the beginning of a relative path is kept. -/
def normalStep (absolute : Bool) (back : List String) (s : String) : List String :=
  if s = "" ∨ s = "." then back
  else if s = ".." then
    match back with
    | [] => if absolute then [] else [".."]
    | t :: rest => if t = ".." then ".." :: t :: rest else rest
  else s :: back

/-- The normal form of a path. -/
def normalize (path : String) : Normal where
  absolute := isAbsolute path
  steps := ((steps path).foldl (normalStep (isAbsolute path)) []).reverse

/-- Whether a step leads anywhere. -/
def moves (s : String) : Bool := s != "" && s != "."

/-- Steps without one back follow those that are there. -/
theorem foldl_normalStep {l : List String} (h : ".." ∉ l) (absolute : Bool) (back : List String) :
    l.foldl (normalStep absolute) back = (l.filter moves).reverse ++ back := by
  induction l generalizing back with
  | nil => rfl
  | cons s rest ih =>
    have hs : s ≠ ".." := fun heq => h (heq ▸ List.mem_cons_self)
    rw [List.foldl_cons, ih fun hmem => h (List.mem_cons_of_mem s hmem)]
    by_cases hempty : s = "" ∨ s = "."
    · have hmoves : moves s = false := by
        rcases hempty with rfl | rfl <;> rfl
      unfold normalStep
      rw [if_pos hempty, List.filter_cons_of_neg (by rw [hmoves]; exact nofun)]
    · have hmoves : moves s = true := by
        rw [not_or] at hempty
        simp [moves, hempty]
      unfold normalStep
      rw [if_neg hempty, if_neg hs, List.filter_cons_of_pos hmoves, List.reverse_cons,
        List.append_assoc]
      rfl

/-- The three ways in which a name is put behind a directory. -/
theorem toList_join (base : String) {name : String} (h : isAbsolute name = false) :
    base = "" ∧ join base name = name ∨
    (∃ front, base.toList = front ++ ['/'] ∧
      (join base name).toList = front ++ '/' :: name.toList) ∨
    base ≠ "" ∧ (join base name).toList = base.toList ++ '/' :: name.toList := by
  unfold join
  rw [h, Bool.false_or]
  by_cases hempty : base = ""
  · rw [if_pos (String.isEmpty_iff.mpr hempty)]
    exact Or.inl ⟨hempty, rfl⟩
  · rw [if_neg (mt String.isEmpty_iff.mp hempty)]
    split
    · rename_i hslash
      obtain ⟨front, hfront⟩ := List.getLast?_eq_some_iff.mp (eq_of_beq hslash)
      refine Or.inr (Or.inl ⟨front, hfront, ?_⟩)
      rw [String.toList_append, hfront, List.append_assoc]
      rfl
    · refine Or.inr (Or.inr ⟨hempty, ?_⟩)
      rw [String.toList_append, String.toList_append, List.append_assoc]
      rfl

theorem isAbsolute_join (base : String) {name : String} (h : isAbsolute name = false) :
    isAbsolute (join base name) = isAbsolute base := by
  rcases toList_join base h with ⟨rfl, hjoin⟩ | ⟨front, hbase, hjoin⟩ | ⟨hempty, hjoin⟩
  · rw [hjoin, h]
    rfl
  · unfold isAbsolute
    rw [hjoin, hbase, List.head?_append, List.head?_append]
    rfl
  · unfold isAbsolute
    cases hbase : base.toList with
    | nil => exact absurd (String.toList_eq_nil_iff.mp hbase) hempty
    | cons c rest =>
      rw [hjoin, hbase]
      rfl

theorem fields_slash (l l' : List Char) : Text.fields (· == '/') (l ++ '/' :: l') =
    Text.fields (· == '/') l ++ Text.fields (· == '/') l' := Text.fields_append l l' rfl

/-- Joining puts the steps of a name behind those of a directory, but for an empty step. -/
theorem foldl_steps_join (base : String) {name : String} (h : isAbsolute name = false)
    (absolute : Bool) :
    (steps (join base name)).foldl (normalStep absolute) [] =
      (steps name).foldl (normalStep absolute) ((steps base).foldl (normalStep absolute) []) := by
  rcases toList_join base h with ⟨rfl, hjoin⟩ | ⟨front, hbase, hjoin⟩ | ⟨-, hjoin⟩
  · rw [hjoin]
    rfl
  · unfold steps
    -- The slash at the end of the directory is followed by an empty step, which leads nowhere.
    rw [hjoin, hbase, fields_slash, fields_slash, List.map_append, List.map_append,
      List.foldl_append, List.foldl_append]
    rfl
  · unfold steps
    rw [hjoin, fields_slash, List.map_append, List.foldl_append]

/-- In normal form, the steps of a name without a step back follow those of the directory. -/
theorem normalize_join (base : String) {name : String} (habsolute : isAbsolute name = false)
    (hback : ".." ∉ steps name) :
    normalize (join base name) = (normalize base).below ((steps name).filter moves) := by
  unfold normalize Normal.below
  rw [isAbsolute_join base habsolute, foldl_steps_join base habsolute, foldl_normalStep hback]
  simp only [List.reverse_append, List.reverse_reverse]

end Path

/-! ## Safe names -/

theorem hasDoubleDot_append (l l' : List Char) : hasDoubleDot (l ++ '.' :: '.' :: l') = true := by
  induction l with
  | nil => rfl
  | cons c rest ih =>
    rw [List.cons_append]
    unfold hasDoubleDot
    split
    · rfl
    · rename_i heq
      cases heq
      exact ih
    · rename_i heq
      cases heq

/-- Two dots in a row are anywhere in a text with a step back. -/
theorem hasDoubleDot_of_mem_steps {name : String} (h : ".." ∈ Path.steps name) :
    hasDoubleDot name.toList = true := by
  obtain ⟨field, hmem, hfield⟩ := List.mem_map.mp h
  obtain ⟨front, rest, happend⟩ := Text.isInfix_of_mem_fields hmem
  have hdots : field = ['.', '.'] := by rw [← String.toList_ofList (l := field), hfield]; rfl
  rw [← happend, hdots, List.append_assoc]
  exact hasDoubleDot_append front rest

theorem steps_of_isSafeName {name : String} (h : isSafeName name = true) :
    Path.isAbsolute name = false ∧ ".." ∉ Path.steps name := by
  unfold isSafeName at h
  simp only [Bool.not_eq_true', Bool.or_eq_false_iff] at h
  obtain ⟨⟨-, habsolute⟩, hdots⟩ := h
  refine ⟨habsolute, fun hmem => ?_⟩
  rw [hasDoubleDot_of_mem_steps hmem] at hdots
  cases hdots

/-! ## Bytes of texts -/

namespace Bytes

/-- The bytes of characters. -/
def encode (cs : List Char) : Bytes := cs.flatMap String.utf8EncodeChar

theorem ofText_eq (s : String) : ofText s = encode s.toList := by
  unfold ofText String.toUTF8 encode
  rw [← String.utf8Encode_toList, List.utf8Encode, List.data_toByteArray]

theorem encode_cons (c : Char) (cs : List Char) :
    encode (c :: cs) = String.utf8EncodeChar c ++ encode cs := List.flatMap_cons

theorem encode_append (cs cs' : List Char) : encode (cs ++ cs') = encode cs ++ encode cs' :=
  List.flatMap_append

/-- A character of ASCII is one byte, and no byte of another character looks like one. -/
theorem utf8EncodeChar_cases (c : Char) :
    c.toNat < 0x80 ∧ String.utf8EncodeChar c = [UInt8.ofNat c.toNat] ∨
      ∀ b ∈ String.utf8EncodeChar c, 0x80 ≤ b.toNat := by
  by_cases h : c.val.toNat ≤ 127
  · exact Or.inl ⟨Nat.lt_succ_of_le h, if_pos h⟩
  · refine Or.inr fun b hb => ?_
    unfold String.utf8EncodeChar at hb
    dsimp only at hb
    rw [if_neg h] at hb
    split at hb
    · simp only [List.mem_cons, List.not_mem_nil, or_false] at hb
      rcases hb with rfl | rfl <;> rw [UInt8.toNat_ofNat'] <;> omega
    · split at hb
      · simp only [List.mem_cons, List.not_mem_nil, or_false] at hb
        rcases hb with rfl | rfl | rfl <;> rw [UInt8.toNat_ofNat'] <;> omega
      · simp only [List.mem_cons, List.not_mem_nil, or_false] at hb
        rcases hb with rfl | rfl | rfl | rfl <;> rw [UInt8.toNat_ofNat'] <;> omega

/-- A text that begins with the bytes of characters begins with these characters. -/
theorem eq_append_of_encode {l cs : List Char} {rest : Bytes} (h : encode l = encode cs ++ rest) :
    ∃ l', l = cs ++ l' ∧ encode l' = rest := by
  have hbytes : cs.utf8Encode ++ rest.toByteArray = l.utf8Encode := by
    rw [List.utf8Encode, List.utf8Encode, ← List.toByteArray_append]
    exact congrArg List.toByteArray h.symm
  obtain ⟨l', rfl⟩ := List.isPrefix_of_utf8Encode_append_eq_utf8Encode _ hbytes
  rw [encode_append] at h
  exact ⟨l', rfl, List.append_cancel_left h⟩

/-- A text whose last byte is one of ASCII ends with that character. -/
theorem eq_concat_of_encode {l : List Char} {c : Char} {rest : Bytes} (hc : c.toNat < 0x80)
    (h : encode l = rest ++ [UInt8.ofNat c.toNat]) : ∃ l', l = l' ++ [c] ∧ encode l' = rest := by
  rcases List.eq_nil_or_concat l with rfl | ⟨l', d, rfl⟩
  · exact absurd h.symm (List.append_ne_nil_of_right_ne_nil _ nofun)
  · rw [List.concat_eq_append, encode_append] at h
    have hchar : encode [d] = String.utf8EncodeChar d := List.append_nil _
    obtain ⟨front, x, hd⟩ : ∃ front x, String.utf8EncodeChar d = front ++ [x] := by
      rcases List.eq_nil_or_concat (String.utf8EncodeChar d) with hnil | ⟨front, x, hd⟩
      · exact absurd hnil String.utf8EncodeChar_ne_nil
      · exact ⟨front, x, hd.trans List.concat_eq_append⟩
    rw [hchar, hd, ← List.append_assoc, List.append_singleton_inj] at h
    have hx : x.toNat = c.toNat := by
      rw [h.2, UInt8.toNat_ofNat']
      omega
    -- The last byte is one of the last character, so that is a character of ASCII.
    rcases utf8EncodeChar_cases d with ⟨hlt, hone⟩ | hlarge
    · obtain ⟨rfl, hx'⟩ : front = [] ∧ x = UInt8.ofNat d.toNat := by
        rw [hone, ← List.nil_append [UInt8.ofNat _], List.append_singleton_inj] at hd
        exact ⟨hd.1.symm, hd.2.symm⟩
      have hdc : d = c := by
        rw [← Char.toNat_inj, ← hx, hx', UInt8.toNat_ofNat']
        omega
      exact ⟨l', by rw [List.concat_eq_append, hdc], (List.append_nil _).symm.trans h.1⟩
    · have := hlarge x (hd ▸ List.mem_append_right _ List.mem_cons_self)
      omega

/-- A text that ends with the bytes of characters of ASCII ends with these characters. -/
theorem eq_append_of_encode_ascii {l cs : List Char} {rest : Bytes} (hcs : ∀ c ∈ cs, c.toNat < 0x80)
    (h : encode l = rest ++ encode cs) : ∃ l', l = l' ++ cs ∧ encode l' = rest := by
  induction cs generalizing l rest with
  | nil => exact ⟨l, (List.append_nil l).symm, h.trans (List.append_nil rest)⟩
  | cons c cs ih =>
    have hc := hcs c List.mem_cons_self
    have hone : String.utf8EncodeChar c = [UInt8.ofNat c.toNat] := if_pos (Nat.le_of_lt_succ hc)
    rw [encode_cons, hone, ← List.append_assoc] at h
    obtain ⟨front, rfl, hfront⟩ := ih (fun d hd => hcs d (List.mem_cons_of_mem c hd)) h
    obtain ⟨l', rfl, hl'⟩ := eq_concat_of_encode hc hfront
    exact ⟨l', List.append_assoc .. , hl'⟩

end Bytes

/-! ## Patterns with one star -/

namespace Glob

theorem mem_of_mem_distinct {l : List Bytes} {x : Bytes} (h : x ∈ distinct l) : x ∈ l := by
  induction l with
  | nil => exact h
  | cons s rest ih =>
    change x ∈ (if (distinct rest).any (·.length == s.length) then distinct rest
      else s :: distinct rest) at h
    split at h
    · exact List.mem_cons_of_mem s (ih h)
    · rcases List.mem_cons.mp h with rfl | h
      · exact List.mem_cons_self
      · exact List.mem_cons_of_mem s (ih h)

/-- Tokens can leave a suffix of a string, one after the other. -/
def Reaches (o : Options) : List Token → Bytes → Bytes → Prop
  | [], s, x => s = x
  | t :: rest, s, x => ∃ m ∈ t.ends o s, Reaches o rest m x

/-- What tokens leave of one of several strings, they leave of one of them. -/
theorem reaches_of_mem_tokensEnds {o : Options} {ts : List Token} {starts : List Bytes} {x : Bytes}
    (h : x ∈ tokensEnds o starts ts) : ∃ s ∈ starts, Reaches o ts s x := by
  induction ts generalizing starts with
  | nil =>
    rw [tokensEnds] at h
    exact ⟨x, h, rfl⟩
  | cons t rest ih =>
    rw [tokensEnds] at h
    obtain ⟨m, hm, hreaches⟩ := ih h
    obtain ⟨s, hs, hends⟩ := List.mem_flatMap.mp (mem_of_mem_distinct hm)
    exact ⟨s, hs, m, hends, hreaches⟩

variable {o : Options}

theorem append_of_mem_behindLiteral (hcase : o.ignoreCase = false) {literal s x : Bytes}
    (h : x ∈ o.behindLiteral literal s) : s = literal ++ x := by
  induction literal generalizing s with
  | nil =>
    rw [Options.behindLiteral, List.mem_singleton] at h
    exact h.symm
  | cons a rest ih =>
    cases s with
    | nil => cases h
    | cons b bs =>
      rw [Options.behindLiteral] at h
      split at h
      · rename_i hsame
        rw [Options.same, if_neg (by rw [hcase]; exact nofun)] at hsame
        rw [ih h, eq_of_beq hsame]
        rfl
      · cases h

theorem append_of_mem_withinComponent {s x : Bytes} (h : x ∈ withinComponent s) :
    ∃ w, s = w ++ x ∧ slash ∉ w := by
  induction s with
  | nil =>
    rw [withinComponent, List.mem_singleton] at h
    exact ⟨[], h.symm, nofun⟩
  | cons c rest ih =>
    rw [withinComponent] at h
    rcases List.mem_cons.mp h with rfl | h
    · exact ⟨[], rfl, nofun⟩
    · split at h
      · cases h
      · rename_i hc
        obtain ⟨w, rfl, hw⟩ := ih h
        refine ⟨c :: w, rfl, fun hmem => ?_⟩
        rcases List.mem_cons.mp hmem with rfl | hmem
        · exact hc (beq_self_eq_true _)
        · exact hw hmem

/-- Characters that stand for themselves. -/
def literals (s : String) : List Token := s.toList.map .literal

theorem append_of_reaches_literals (hcase : o.ignoreCase = false) {cs : List Char}
    {ts : List Token} {s x : Bytes} (h : Reaches o (cs.map .literal ++ ts) s x) :
    ∃ m, s = Bytes.encode cs ++ m ∧ Reaches o ts m x := by
  induction cs generalizing s with
  | nil => exact ⟨s, rfl, h⟩
  | cons c rest ih =>
    obtain ⟨m, hm, hreaches⟩ := h
    obtain ⟨m', rfl, hrest⟩ := ih hreaches
    refine ⟨m', ?_, hrest⟩
    rw [append_of_mem_behindLiteral hcase hm, Bytes.ofText_eq, Char.toString_eq_singleton,
      String.toList_singleton, ← List.append_assoc, ← Bytes.encode_append]
    rfl

/-- A pattern with one star, which does not match a slash. -/
def starMatcher (first last : String) : Matcher :=
  ⟨{ separator := true }, literals first ++ .anyRun :: literals last⟩

/-- A name that a pattern with one star matches has the characters of the pattern around others, and no
slash among those. -/
theorem toList_of_accepts {first last name : String} (hlast : ∀ c ∈ last.toList, c.toNat < 0x80)
    (h : (starMatcher first last).accepts name = true) :
    ∃ cs, name.toList = first.toList ++ (cs ++ last.toList) ∧ '/' ∉ cs := by
  obtain ⟨x, hx, hempty⟩ : ∃ x ∈ tokensEnds { separator := true } [Bytes.ofText name]
      (literals first ++ .anyRun :: literals last), x.isEmpty = true := by
    unfold Matcher.accepts matchesTokens at h
    split at h
    · -- A star is no pattern of directories.
      rename_i heq
      unfold starMatcher literals at heq
      cases hfirst : first.toList with
      | nil => rw [hfirst] at heq; cases heq
      | cons c cs => rw [hfirst] at heq; cases heq
    · exact List.any_eq_true.mp h
  obtain ⟨s, hs, hreaches⟩ := reaches_of_mem_tokensEnds hx
  rw [List.mem_singleton, Bytes.ofText_eq] at hs
  obtain ⟨m, hm, m', hrun, hlasts⟩ := append_of_reaches_literals rfl hreaches
  obtain ⟨w, rfl, hslash⟩ := append_of_mem_withinComponent hrun
  rw [← List.append_nil (literals last)] at hlasts
  obtain ⟨_, rfl, rfl⟩ := append_of_reaches_literals rfl hlasts
  rw [List.isEmpty_iff.mp hempty, List.append_nil] at hm
  obtain ⟨rest, hname, hrest⟩ := Bytes.eq_append_of_encode (hs.symm.trans hm)
  obtain ⟨cs, rfl, hcs⟩ := Bytes.eq_append_of_encode_ascii hlast hrest
  refine ⟨cs, hname, fun hmem => hslash ?_⟩
  rw [← hcs]
  exact List.mem_flatMap.mpr ⟨'/', hmem, by decide⟩

end Glob

/-- A name that such a pattern matches, with the star right behind a directory, has two steps. -/
theorem Path.steps_of_accepts {directory last name : String} (hdirectory : '/' ∉ directory.toList)
    (hlast : (last.toList.all fun c => decide (c.toNat < 0x80) && c != '/') = true)
    (h : (Glob.starMatcher (directory ++ "/") last).accepts name = true) :
    ∃ rest, steps name = [directory, rest] ∧ last.toList <:+ rest.toList := by
  simp only [List.all_eq_true, Bool.and_eq_true, decide_eq_true_eq, bne_iff_ne] at hlast
  obtain ⟨cs, hname, hslash⟩ := Glob.toList_of_accepts (fun c hc => (hlast c hc).1) h
  have hone {l : List Char} (hl : '/' ∉ l) : Text.fields (· == '/') l = [l] :=
    Text.fields_eq_singleton fun c hc => beq_false_of_ne fun heq => hl (heq ▸ hc)
  have hrest : '/' ∉ cs ++ last.toList := fun hmem =>
    (List.mem_append.mp hmem).elim hslash fun hmem => (hlast _ hmem).2 rfl
  refine ⟨String.ofList (cs ++ last.toList), ?_, ?_⟩
  · unfold steps
    rw [hname, String.toList_append, List.append_assoc]
    show (Text.fields _ (directory.toList ++ '/' :: (cs ++ last.toList))).map _ = _
    rw [fields_slash, hone hdirectory, hone hrest, List.singleton_append, List.map_cons,
      List.map_cons, List.map_nil, String.ofList_toList]
  · rw [String.toList_ofList]
    exact List.suffix_append _ _

/-! ## The sandbox -/

namespace Sandbox

theorem fallbackMatchers_eq : fallbackMatchers =
    [Glob.starMatcher ("configs" ++ "/") ".cfg", Glob.starMatcher ("particles" ++ "/") "",
      Glob.starMatcher ("huds" ++ "/") "", Glob.starMatcher ("models" ++ "/") ""] := by
  simp [fallbackMatchers, fallbackPatterns, Glob.Matcher.ofPattern, Glob.read, Glob.readFrom,
    Glob.State.push, Glob.State.inGroup, Glob.starMatcher, Glob.literals, Except.toOption]

/-- The directories that can be read from outside of the data directory. -/
def fallbackDirectories : List String := ["configs", "particles", "huds", "models"]

theorem steps_of_fallbackAllowed {name : String} (h : fallbackAllowed name = true) :
    ∃ directory ∈ fallbackDirectories, ∃ rest, Path.steps name = [directory, rest] ∧
      (directory = "configs" → ".cfg".toList <:+ rest.toList) := by
  unfold fallbackAllowed at h
  rw [fallbackMatchers_eq] at h
  obtain ⟨m, hm, haccepts⟩ := List.any_eq_true.mp h
  simp only [List.mem_cons, List.not_mem_nil, or_false] at hm
  rcases hm with rfl | rfl | rfl | rfl
  · obtain ⟨rest, hsteps, hlast⟩ := Path.steps_of_accepts (by decide) (by decide) haccepts
    exact ⟨"configs", by decide, rest, hsteps, fun _ => hlast⟩
  · obtain ⟨rest, hsteps, -⟩ := Path.steps_of_accepts (by decide) (by decide) haccepts
    exact ⟨"particles", by decide, rest, hsteps, fun heq => absurd heq (by decide)⟩
  · obtain ⟨rest, hsteps, -⟩ := Path.steps_of_accepts (by decide) (by decide) haccepts
    exact ⟨"huds", by decide, rest, hsteps, fun heq => absurd heq (by decide)⟩
  · obtain ⟨rest, hsteps, -⟩ := Path.steps_of_accepts (by decide) (by decide) haccepts
    exact ⟨"models", by decide, rest, hsteps, fun heq => absurd heq (by decide)⟩

/-- A path at or below the data directory. -/
def HoldsData (s : Sandbox) (path : String) : Prop :=
  ∃ l, Path.normalize path = (Path.normalize s.directory).below ("data" :: l)

/-- A path at or right below one of the directories that can be read, where `configs` gives nothing
but what ends in `.cfg`. -/
def HoldsFallback (s : Sandbox) (path : String) : Prop :=
  ∃ directory ∈ fallbackDirectories, ∃ l,
    Path.normalize path = (Path.normalize s.directory).below (directory :: l) ∧ l.length ≤ 1 ∧
      (directory = "configs" → ∀ name ∈ l, ".cfg".toList <:+ name.toList)

theorem dataPath_eq_ok {s : Sandbox} {name path : String} :
    s.dataPath name = .ok path ↔ isSafeName name = true ∧ Path.join s.data name = path := by
  unfold dataPath
  split
  · rename_i hsafe
    simp [hsafe]
  · rename_i hsafe
    simp [hsafe]

theorem holdsData_of_dataPath {s : Sandbox} {name path : String} (h : s.dataPath name = .ok path) :
    s.HoldsData path := by
  obtain ⟨hsafe, rfl⟩ := dataPath_eq_ok.mp h
  obtain ⟨habsolute, hback⟩ := steps_of_isSafeName hsafe
  have hdata : Path.normalize s.data = (Path.normalize s.directory).below ["data"] :=
    Path.normalize_join s.directory rfl (by decide +kernel)
  refine ⟨(Path.steps name).filter Path.moves, ?_⟩
  rw [Path.normalize_join s.data habsolute hback, hdata, Path.Normal.below_below]
  rfl

theorem holdsFallback_of_allowed {s : Sandbox} {name : String} (hsafe : isSafeName name = true)
    (h : fallbackAllowed name = true) : s.HoldsFallback (Path.join s.directory name) := by
  obtain ⟨habsolute, hback⟩ := steps_of_isSafeName hsafe
  obtain ⟨directory, hmem, rest, hsteps, hconfigs⟩ := steps_of_fallbackAllowed h
  have hmoves : Path.moves directory = true :=
    (by decide : ∀ directory ∈ fallbackDirectories, Path.moves directory = true) directory hmem
  refine ⟨directory, hmem, [rest].filter Path.moves, ?_, List.length_filter_le _ _, ?_⟩
  · rw [Path.normalize_join s.directory habsolute hback, hsteps, List.filter_cons_of_pos hmoves]
  · intro heq name hname
    obtain rfl := List.mem_singleton.mp (List.mem_filter.mp hname).1
    exact hconfigs heq

theorem path_of_writePath {s : Sandbox} {d d' : Disk} {name path : String}
    (h : s.writePath d name = .ok (path, d')) : s.dataPath name = .ok path := by
  unfold writePath at h
  cases hdata : s.dataPath name with
  | error e => rw [hdata] at h; cases h
  | ok p =>
    rw [hdata] at h
    dsimp only at h
    split at h
    · cases h
      rfl
    · split at h <;> cases h
      rfl

theorem path_of_readPath {s : Sandbox} {d : Disk} {name path : String}
    (h : s.readPath d name = .ok path) :
    s.dataPath name = .ok path ∨ isSafeName name = true ∧ fallbackAllowed name = true ∧
      Path.join s.directory name = path := by
  unfold readPath at h
  cases hdata : s.dataPath name with
  | error e => rw [hdata] at h; cases h
  | ok p =>
    rw [hdata] at h
    dsimp only at h
    split at h
    · cases h
      exact Or.inl rfl
    · split at h
      · rename_i hallowed
        cases h
        exact Or.inr ⟨(dataPath_eq_ok.mp hdata).1, (Bool.and_eq_true_iff.mp hallowed).1, rfl⟩
      · cases h

/-- **A path that a program gets stays in the sandbox.** Whatever the game directory, the disk and the
name are, a path to write to is in the data directory, and so is a path to read from, unless it is
right in one of the few directories of the game that can be read. -/
theorem paths_contained (s : Sandbox) (d : Disk) (name path : String) :
    (∀ d', s.writePath d name = .ok (path, d') → s.HoldsData path) ∧
      (s.readPath d name = .ok path → s.HoldsData path ∨ s.HoldsFallback path) := by
  refine ⟨fun d' h => holdsData_of_dataPath (path_of_writePath h), fun h => ?_⟩
  rcases path_of_readPath h with hdata | ⟨hsafe, hallowed, rfl⟩
  · exact Or.inl (holdsData_of_dataPath hdata)
  · exact Or.inr (holdsFallback_of_allowed hsafe hallowed)

/-- A disk with one file, which is in a directory that can be read. -/
def configured : Disk :=
  ⟨[(["game"], .directory), (["game", "configs"], .directory),
    (["game", "configs", "a.cfg"], .file [] 0)]⟩

theorem paths_contained_configured :
    readPath ⟨"./game"⟩ configured "configs/a.cfg" = .ok "./game/configs/a.cfg" ∧
      (HoldsData ⟨"./game"⟩ "./game/configs/a.cfg" ∨
        HoldsFallback ⟨"./game"⟩ "./game/configs/a.cfg") := by
  have hallowed : fallbackAllowed "configs/a.cfg" = true := by
    rw [fallbackAllowed, fallbackMatchers_eq]
    decide +kernel
  have hdata : dataPath ⟨"./game"⟩ "configs/a.cfg" = .ok "./game/data/configs/a.cfg" :=
    dataPath_eq_ok.mpr ⟨by decide +kernel, by decide +kernel⟩
  have hread : readPath ⟨"./game"⟩ configured "configs/a.cfg" = .ok "./game/configs/a.cfg" := by
    unfold readPath
    rw [hdata, hallowed]
    dsimp only
    rw [if_neg (by decide +kernel), if_pos (by decide +kernel)]
    exact congrArg Except.ok (by decide +kernel)
  exact ⟨hread, (paths_contained _ configured _ _).2 hread⟩

end Sandbox

end QuakeVm
