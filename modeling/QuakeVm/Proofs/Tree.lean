import QuakeVm.Proofs.Sandbox

/-!
# Disks as trees

A disk is a list of places. It is a tree (`Disk.IsTree`) if every place stands there once, is spelled
with proper names, and lies in a directory.

In a tree a place and a path tell the same. Following the names of a place asks of every step that it
leads to a directory, and a tree has all directories above what it holds; so the names lead there,
and they lead nowhere else. A path behind a directory therefore leads to a file exactly if the list
has the file at the place of the directory with the steps of the path behind it
(`Disk.IsTree.at?_join_eq_file_iff`), which is also where a walk below the directory finds it
(`Disk.mem_filesBelow`).
-/

namespace QuakeVm

/-! ## Texts and their fields -/

namespace Text

theorem not_of_mem_fields {p : Char → Bool} {l field : List Char} (h : field ∈ fields p l) :
    ∀ c ∈ field, p c = false := by
  induction l generalizing field with
  | nil =>
    rw [fields, List.mem_singleton] at h
    subst h
    exact List.forall_mem_nil _
  | cons d rest ih =>
    rw [fields] at h
    split at h
    · rcases List.mem_cons.mp h with rfl | h
      · exact List.forall_mem_nil _
      · exact ih h
    · rename_i hd
      cases hrest : fields p rest with
      | nil => exact absurd hrest (fields_ne_nil p rest)
      | cons first more =>
        rw [hrest] at h ih
        rcases List.mem_cons.mp h with rfl | h
        · intro c hc
          rcases List.mem_cons.mp hc with rfl | hc
          · exact Bool.not_eq_true _ ▸ hd
          · exact ih List.mem_cons_self c hc
        · exact ih (List.mem_cons_of_mem first h)

end Text

/-! ## Names -/

namespace Path

/-- A name of a file or a directory: a step that leads down from any directory. -/
def IsName (s : String) : Prop := s ≠ "" ∧ s ≠ "." ∧ s ≠ ".." ∧ '/' ∉ s.toList

instance : DecidablePred IsName := fun _ => inferInstanceAs (Decidable (_ ∧ _))

theorem IsName.moves {s : String} (h : IsName s) : moves s = true := by
  simp [Path.moves, h.1, h.2.1]

theorem steps_ne_nil (path : String) : steps path ≠ [] := by
  simp [steps, Text.fields_ne_nil]

theorem slash_notMem_of_mem_steps {path s : String} (h : s ∈ steps path) : '/' ∉ s.toList := by
  obtain ⟨field, hmem, rfl⟩ := List.mem_map.mp h
  rw [String.toList_ofList]
  intro hslash
  exact absurd (Text.not_of_mem_fields hmem '/' hslash) nofun

theorem steps_eq_splitOn (path : String) :
    steps path = (path.toList.splitOn '/').map String.ofList := by
  rw [steps, Text.fields_eq_splitOnP, List.splitOn]

theorem intercalate_steps (path : String) : String.intercalate "/" (steps path) = path := by
  have hid : String.toList ∘ String.ofList = id := funext fun _ => String.toList_ofList
  rw [← String.toList_inj, String.toList_intercalate, steps_eq_splitOn, List.map_map, hid, List.map_id]
  exact List.intercalate_splitOn '/'

theorem steps_intercalate {l : List String} (hne : l ≠ []) (h : ∀ s ∈ l, IsName s) :
    steps (String.intercalate "/" l) = l := by
  have hfree : ∀ cs ∈ l.map String.toList, '/' ∉ cs := by
    intro cs hcs
    obtain ⟨s, hs, rfl⟩ := List.mem_map.mp hcs
    exact (h s hs).2.2.2
  have hid : String.ofList ∘ String.toList = id := funext fun _ => String.ofList_toList
  rw [steps_eq_splitOn, String.toList_intercalate]
  change (List.splitOn '/' (['/'].intercalate _)).map _ = l
  rw [List.splitOn_intercalate '/' hfree (by simpa using hne), List.map_map, hid, List.map_id]

/-- Names can be read off the path that they make up, even if there are none. -/
theorem filter_steps_intercalate {l : List String} (h : ∀ s ∈ l, IsName s) :
    (steps (String.intercalate "/" l)).filter moves = l := by
  by_cases hne : l = []
  · subst hne
    rfl
  · rw [steps_intercalate hne h, List.filter_eq_self]
    exact fun s hs => (h s hs).moves

theorem join_ne_empty {base name : String} (hbase : base ≠ "") (h : isAbsolute name = false) :
    join base name ≠ "" := by
  rw [Ne, ← String.toList_eq_nil_iff]
  rcases toList_join base h with ⟨rfl, -⟩ | ⟨front, -, hjoin⟩ | ⟨-, hjoin⟩
  · exact absurd rfl hbase
  · rw [hjoin]
    simp
  · rw [hjoin]
    simp

/-- Joining puts the steps of a name behind those of a directory. The empty step behind a slash at
the end of the directory goes. -/
theorem steps_join {base name : String} (hbase : base ≠ "") (h : isAbsolute name = false) :
    ∃ l, l ≠ [] ∧ (steps base = l ∨ steps base = l ++ [""]) ∧
      steps (join base name) = l ++ steps name := by
  unfold steps
  rcases toList_join base h with ⟨rfl, -⟩ | ⟨front, hfront, hjoin⟩ | ⟨-, hjoin⟩
  · exact absurd rfl hbase
  · refine ⟨(Text.fields (· == '/') front).map String.ofList, ?_, Or.inr ?_, ?_⟩
    · simp [Text.fields_ne_nil]
    · rw [hfront, fields_slash, List.map_append]
      rfl
    · rw [hjoin, fields_slash, List.map_append]
  · refine ⟨_, ?_, Or.inl rfl, ?_⟩
    · simp [Text.fields_ne_nil]
    · rw [hjoin, fields_slash, List.map_append]

end Path

theorem isName_of_isSafeName {name : String} (h : isSafeName name = true)
    (hmoves : ∀ s ∈ Path.steps name, s ≠ "" ∧ s ≠ ".") : ∀ s ∈ Path.steps name, Path.IsName s := by
  intro s hs
  have hback : s ≠ ".." := fun heq => (steps_of_isSafeName h).2 (heq ▸ hs)
  exact ⟨(hmoves s hs).1, (hmoves s hs).2, hback, Path.slash_notMem_of_mem_steps hs⟩

namespace Disk

variable {d : Disk} {p q : Place} {l : List String}

/-! ## Following names -/

theorem follow_append (d : Disk) (p : Place) (l l' : List String) :
    d.follow p (l ++ l') = (d.follow p l).bind fun q => d.follow q l' := by
  induction l generalizing p with
  | nil => rfl
  | cons s rest ih =>
    rw [List.cons_append, follow, follow]
    split
    · rfl
    · split
      · exact ih p
      · split
        · exact ih (above p)
        · split
          · exact ih (p ++ [s])
          · rfl

theorem follow_cons_of_isName {s : String} (h : Path.IsName s) (rest : List String) :
    d.follow p (s :: rest) =
      if !d.isDirectoryAt p then .error .notDirectory
      else if (d.node? (p ++ [s])).isSome then d.follow (p ++ [s]) rest
      else .error .notFound := by
  obtain ⟨hempty, hdot, hdots, -⟩ := h
  simp [follow, hempty, hdot, hdots]

/-- Names lead nowhere but down. -/
theorem eq_append_of_follow (hl : ∀ s ∈ l, Path.IsName s) (h : d.follow p l = .ok q) :
    q = p ++ l := by
  induction l generalizing p with
  | nil =>
    cases h
    exact (List.append_nil _).symm
  | cons s rest ih =>
    rw [follow_cons_of_isName (hl s List.mem_cons_self)] at h
    split at h
    · cases h
    · split at h
      · rw [ih (fun t ht => hl t (List.mem_cons_of_mem s ht)) h, List.append_assoc]
        rfl
      · cases h

theorem start_join {base name : String} (hbase : base ≠ "") (h : Path.isAbsolute name = false) :
    ∃ l, ((start base).2 = l ∨ (start base).2 = l ++ [""]) ∧
      start (Path.join base name) = ((start base).1, l ++ Path.steps name) := by
  obtain ⟨l, hne, hsteps, hjoin⟩ := Path.steps_join hbase h
  unfold start
  dsimp only
  rw [Path.isAbsolute_join base h, hjoin]
  split
  · have hlength : 1 ≤ l.length := List.length_pos_iff.mpr hne
    refine ⟨l.drop 1, ?_, ?_⟩
    · rcases hsteps with hsteps | hsteps
      · exact Or.inl (by rw [hsteps])
      · exact Or.inr (by rw [hsteps, List.drop_append_of_le_length hlength])
    · rw [List.drop_append_of_le_length hlength]
  · exact ⟨l, hsteps, rfl⟩

/-- A path behind a directory is followed from where the directory is. -/
theorem locate_join (d : Disk) {base name : String} (hbase : base ≠ "")
    (h : Path.isAbsolute name = false) :
    d.locate (Path.join base name) = (d.locate base).bind fun p => d.follow p (Path.steps name) := by
  obtain ⟨l, hsteps, hstart⟩ := start_join hbase h
  unfold locate
  rw [if_neg (mt String.isEmpty_iff.mp (Path.join_ne_empty hbase h)),
    if_neg (mt String.isEmpty_iff.mp hbase), hstart, follow_append]
  rcases hsteps with hsteps | hsteps
  · rw [hsteps]
  · rw [hsteps, follow_append]
    cases d.follow (start base).1 l with
    | error e => rfl
    | ok q =>
      -- The slash asks that a directory is here, and so does the first step of the name.
      obtain ⟨s, rest, hname⟩ := List.exists_cons_of_ne_nil (Path.steps_ne_nil name)
      by_cases hdir : d.isDirectoryAt q = true
      · simp [Except.bind, follow, hdir]
      · simp [Except.bind, follow, hdir, hname]

/-! ## Trees -/

/-- The names of a place. -/
def names (p : Place) : List String := if p.head? = some "/" then p.tail else p

/-- A disk is a tree: every place stands there once, has names, and lies in a directory. -/
structure IsTree (d : Disk) : Prop where
  distinct : (d.nodes.map (·.1)).Nodup
  named : ∀ e ∈ d.nodes, names e.1 ≠ [] ∧ ∀ s ∈ names e.1, Path.IsName s
  held : ∀ e ∈ d.nodes, d.isDirectoryAt e.1.dropLast = true

instance (d : Disk) : Decidable d.IsTree :=
  decidable_of_iff
    ((d.nodes.map (·.1)).Nodup ∧
      (∀ e ∈ d.nodes, names e.1 ≠ [] ∧ ∀ s ∈ names e.1, Path.IsName s) ∧
      ∀ e ∈ d.nodes, d.isDirectoryAt e.1.dropLast = true)
    ⟨fun h => ⟨h.1, h.2.1, h.2.2⟩, fun h => ⟨h.distinct, h.named, h.held⟩⟩

theorem mem_names_of_mem (hhead : l.head? ≠ some "/") {s : String} (hs : s ∈ l) :
    s ∈ names (p ++ l) := by
  unfold names
  cases p with
  | nil => rwa [List.nil_append, if_neg hhead]
  | cons a rest =>
    split
    · exact List.mem_append_right rest hs
    · exact List.mem_append_right (a :: rest) hs

theorem head?_ne_of_isName (hl : ∀ s ∈ l, Path.IsName s) : l.head? ≠ some "/" := by
  intro hhead
  have hslash := (hl "/" (List.mem_of_head? hhead)).2.2.2
  exact hslash (by decide)

/-- A node stands in the list, or it is the working directory or the root. -/
theorem mem_of_node? {n : Node} (h : d.node? p = some n) : (p, n) ∈ d.nodes ∨ p = [] ∨ p = root := by
  unfold node? at h
  split at h
  · rename_i htop
    simpa using Or.inr htop
  · obtain ⟨front, rest, hnodes, -⟩ := List.lookup_eq_some_iff.mp h
    rw [hnodes]
    exact Or.inl (List.mem_append_right front List.mem_cons_self)

namespace IsTree

theorem isName_of_mem (ht : d.IsTree) {n : Node} (h : (p ++ l, n) ∈ d.nodes)
    (hhead : l.head? ≠ some "/") : ∀ s ∈ l, Path.IsName s :=
  fun _ hs => (ht.named _ h).2 _ (mem_names_of_mem hhead hs)

theorem node?_of_mem (ht : d.IsTree) {n : Node} (h : (p, n) ∈ d.nodes) : d.node? p = some n := by
  have hnames := (ht.named _ h).1
  have htop : ¬(p == [] || p == root) = true := by
    intro htop
    rcases Bool.or_eq_true_iff.mp htop with htop | htop <;>
    · rw [eq_of_beq htop] at hnames
      exact hnames rfl
  obtain ⟨front, rest, hnodes⟩ := List.append_of_mem h
  unfold node?
  rw [if_neg htop, List.lookup_eq_some_iff]
  refine ⟨front, rest, hnodes, fun e he => bne_iff_ne.mpr fun heq => ?_⟩
  have hdistinct := ht.distinct
  rw [hnodes, List.map_append, List.map_cons, List.nodup_append] at hdistinct
  exact hdistinct.2.2 _ (List.mem_map_of_mem he) _ List.mem_cons_self heq.symm

theorem node?_eq_file_iff (ht : d.IsTree) {content : Bytes} {modified : Int} :
    d.node? p = some (.file content modified) ↔ (p, .file content modified) ∈ d.nodes := by
  refine ⟨fun h => ?_, ht.node?_of_mem⟩
  rcases mem_of_node? h with hmem | rfl | rfl
  · exact hmem
  · cases h
  · cases h

/-- Everything above a place that exists is a directory. -/
theorem isDirectoryAt_of_append (ht : d.IsTree) (hne : l ≠ [])
    (h : (d.node? (p ++ l)).isSome = true) : d.isDirectoryAt p = true := by
  -- From the end of the place upwards: what holds a node is a directory, so it exists as well.
  induction hlength : l.length generalizing l with
  | zero => exact absurd (List.length_eq_zero_iff.mp hlength) hne
  | succ n ih =>
    obtain ⟨node, hnode⟩ := Option.isSome_iff_exists.mp h
    have hheld : d.isDirectoryAt (p ++ l).dropLast = true := by
      rcases mem_of_node? hnode with hmem | hroot | hroot
      · exact ht.held _ hmem
      · rw [hroot]
        rfl
      · rw [hroot]
        rfl
    rw [List.dropLast_append_of_ne_nil hne] at hheld
    by_cases hlast : l.dropLast = []
    · rwa [hlast, List.append_nil] at hheld
    · refine ih hlast ?_ (by rw [List.length_dropLast, hlength]; rfl)
      rw [eq_of_beq hheld]
      rfl

/-- The names of what exists lead there. -/
theorem follow_eq_ok (ht : d.IsTree) (hl : ∀ s ∈ l, Path.IsName s)
    (h : (d.node? (p ++ l)).isSome = true) : d.follow p l = .ok (p ++ l) := by
  induction l generalizing p with
  | nil => rw [List.append_nil, follow]
  | cons s rest ih =>
    have hdir := ht.isDirectoryAt_of_append (List.cons_ne_nil s rest) h
    rw [List.append_cons] at h ⊢
    have hnode : (d.node? (p ++ [s])).isSome = true := by
      by_cases hrest : rest = []
      · rwa [hrest, List.append_nil] at h
      · rw [eq_of_beq (ht.isDirectoryAt_of_append hrest h)]
        rfl
    rw [follow_cons_of_isName (hl s List.mem_cons_self), hdir, if_pos hnode]
    exact ih (fun t ht => hl t (List.mem_cons_of_mem s ht)) h

/-- A path behind a directory leads to the file at the place of the directory with the steps of the
path behind it. -/
theorem at?_join_eq_file_iff (ht : d.IsTree) {base name : String} (hbase : base ≠ "")
    (habsolute : Path.isAbsolute name = false) (hname : ∀ s ∈ Path.steps name, Path.IsName s)
    {content : Bytes} {modified : Int} :
    d.at? (Path.join base name) = some (.file content modified) ↔
      ∃ p, d.locate base = .ok p ∧ (p ++ Path.steps name, .file content modified) ∈ d.nodes := by
  unfold at?
  rw [locate_join d hbase habsolute]
  cases hlocate : d.locate base with
  | error e => simp [Except.bind]
  | ok p =>
    simp only [Except.bind, Except.ok.injEq, exists_eq_left']
    constructor
    · intro h
      cases hfollow : d.follow p (Path.steps name) with
      | error e => simp [hfollow] at h
      | ok q =>
        rw [hfollow] at h
        rw [eq_append_of_follow hname hfollow] at h
        exact ht.node?_eq_file_iff.mp h
    · intro h
      have hnode := ht.node?_of_mem h
      rw [ht.follow_eq_ok hname (by rw [hnode]; rfl)]
      exact hnode

end IsTree

/-! ## Files below a place -/

theorem below?_eq_some_iff : below? p q = some l ↔ q = p ++ l ∧ l.head? ≠ some "/" := by
  fun_induction below? p q with
  | case1 q hhead =>
    refine ⟨nofun, fun ⟨heq, hne⟩ => ?_⟩
    rw [List.nil_append] at heq
    exact absurd (heq ▸ eq_of_beq hhead) hne
  | case2 q hhead =>
    rw [List.nil_append, Option.some.injEq]
    exact ⟨fun h => ⟨h, fun heq => hhead (beq_iff_eq.mpr (h ▸ heq))⟩, And.left⟩
  | case3 => simp
  | case4 a p b q hab ih =>
    rw [ih, List.cons_append, List.cons.injEq, eq_of_beq hab, eq_self, true_and]
  | case5 a p b q hab =>
    rw [List.cons_append, List.cons.injEq]
    refine ⟨nofun, fun ⟨⟨heq, _⟩, _⟩ => ?_⟩
    exact absurd (beq_iff_eq.mpr heq.symm) hab

theorem mem_filesBelow {e : Entry} : e ∈ d.filesBelow p ↔ e.steps.head? ≠ some "/" ∧
    ∃ content, (p ++ e.steps, .file content e.modified) ∈ d.nodes ∧ e.size = content.length := by
  unfold filesBelow
  rw [List.mem_filterMap]
  constructor
  · rintro ⟨⟨q, n⟩, hmem, h⟩
    dsimp only at h
    split at h
    · rename_i content modified steps hbelow
      obtain ⟨rfl, hhead⟩ := below?_eq_some_iff.mp hbelow
      cases h
      exact ⟨hhead, content, hmem, rfl⟩
    · cases h
  · rintro ⟨hhead, content, hmem, hsize⟩
    refine ⟨_, hmem, ?_⟩
    dsimp only
    rw [below?_eq_some_iff.mpr ⟨rfl, hhead⟩]
    exact congrArg (fun size => some (Entry.mk e.steps size e.modified)) hsize.symm

/-- A tree has every file once. -/
theorem IsTree.pairwise_filesBelow (ht : d.IsTree) (p : Place) :
    (d.filesBelow p).Pairwise fun e e' => e.steps ≠ e'.steps := by
  have hdistinct := List.pairwise_map.mp ht.distinct
  refine List.Pairwise.filterMap _ ?_ hdistinct
  rintro ⟨q, n⟩ ⟨q', n'⟩ hne e he e' he' heq
  dsimp only at he he'
  split at he
  · rename_i hbelow
    cases he
    split at he'
    · rename_i hbelow'
      cases he'
      dsimp only at heq
      subst heq
      exact hne ((below?_eq_some_iff.mp hbelow).1.trans (below?_eq_some_iff.mp hbelow').1.symm)
    · cases he'
  · cases he

end Disk

end QuakeVm
