import QuakeVm.Proofs.Tree
import QuakeVm.Search

/-!
# A search lists what can be read

A search walks down from two directories and puts together what it finds; reading a name tries two
paths, one after the other. On a tree both see the same files. Each walk lists a name exactly if the
path behind its directory leads to a file (`FoundFile.mem_below_iff`), and leaving out of the second
walk what the first has listed does what trying the data directory first does
(`FoundFile.mem_search_iff`).

There is one exception. The empty path leads nowhere, while a name behind it is looked up where the
program runs. So of an empty game directory only the data directory in it is searched, and its other
files can be read but are not listed.

Different steps make up different names, so each walk lists a name once, and the names of a search
increase.
-/

namespace QuakeVm

/-! ## Reading a name -/

namespace Disk

variable {d : Disk} {path : String}

theorem isFile_eq_true_iff :
    d.isFile path = true ↔ ∃ content modified, d.at? path = some (.file content modified) := by
  unfold isFile
  split
  · rename_i content modified hfile
    exact ⟨fun _ => ⟨content, modified, hfile⟩, fun _ => rfl⟩
  · rename_i hother
    exact ⟨nofun, fun ⟨content, modified, hfile⟩ => absurd hfile (hother content modified)⟩

theorem read_of_at? {content : Bytes} {modified : Int}
    (h : d.at? path = some (.file content modified)) : d.read path = .ok content := by
  unfold at? at h
  unfold read
  cases hlocate : d.locate path with
  | error e =>
    rw [hlocate] at h
    cases h
  | ok p =>
    rw [hlocate] at h
    dsimp only at h ⊢
    rw [h]

end Disk

namespace Sandbox

theorem readPath_eq_ok_iff {s : Sandbox} {d : Disk} {name path : String}
    (hsafe : isSafeName name = true) : s.readPath d name = .ok path ↔
      d.isFile (Path.join s.data name) = true ∧ path = Path.join s.data name ∨
      d.isFile (Path.join s.data name) = false ∧ fallbackAllowed name = true ∧
        d.isFile (Path.join s.directory name) = true ∧ path = Path.join s.directory name := by
  unfold readPath
  rw [dataPath_eq_ok.mpr ⟨hsafe, rfl⟩]
  dsimp only
  cases hdata : d.isFile (Path.join s.data name) with
  | true => simp [eq_comm (a := path)]
  | false =>
    rw [if_neg nofun]
    split
    · rename_i hallowed
      simp [Bool.and_eq_true_iff.mp hallowed, eq_comm (a := path)]
    · rename_i hallowed
      rw [Bool.and_eq_true] at hallowed
      refine ⟨nofun, ?_⟩
      rintro (⟨hfile, -⟩ | ⟨-, hfallback, hfile, -⟩)
      · cases hfile
      · exact absurd ⟨hfallback, hfile⟩ hallowed

/-- The data directory has a path, also that of an empty game directory. -/
theorem data_ne_empty (s : Sandbox) : s.data ≠ "" := by
  unfold data
  by_cases hdirectory : s.directory = ""
  · rw [hdirectory]
    decide
  · exact Path.join_ne_empty hdirectory rfl

theorem isFile_of_readPath {s : Sandbox} {d : Disk} {name path : String}
    (hsafe : isSafeName name = true) (h : s.readPath d name = .ok path) : d.isFile path = true := by
  rcases (readPath_eq_ok_iff hsafe).mp h with ⟨hfile, rfl⟩ | ⟨-, -, hfile, rfl⟩
  · exact hfile
  · exact hfile

end Sandbox

namespace FoundFile

variable {s : Sandbox} {d : Disk} {directory : String} {wanted : String → Bool} {f : FoundFile}

/-! ## One walk -/

/-- What a search tells about a file is true of the file that a path leads to. -/
def Describes (f : FoundFile) (d : Disk) (path : String) : Prop :=
  ∃ content, d.at? path = some (.file content f.modified) ∧ f.size = content.length

theorem Describes.isFile {path : String} (h : f.Describes d path) : d.isFile path = true := by
  obtain ⟨content, hfile, -⟩ := h
  exact Disk.isFile_eq_true_iff.mpr ⟨content, f.modified, hfile⟩

theorem exists_describes {path : String} (h : d.isFile path = true) (name : String) :
    ∃ f : FoundFile, f.name = name ∧ f.Describes d path := by
  obtain ⟨content, modified, hfile⟩ := Disk.isFile_eq_true_iff.mp h
  exact ⟨⟨name, content.length, modified⟩, rfl, content, hfile, rfl⟩

/-- The empty path leads nowhere, so there is nothing to walk. -/
theorem below_empty : below d "" wanted = [] := rfl

/-- A walk lists a name exactly if the path behind the directory leads to a file. -/
theorem mem_below_iff (ht : d.IsTree) (habsolute : Path.isAbsolute f.name = false)
    (hname : ∀ c ∈ Path.steps f.name, Path.IsName c) :
    f ∈ below d directory wanted ↔
      directory ≠ "" ∧ wanted f.name = true ∧ f.Describes d (Path.join directory f.name) := by
  by_cases hdirectory : directory = ""
  · rw [hdirectory, below_empty]
    exact ⟨nofun, fun h => absurd rfl h.1⟩
  rw [and_iff_right hdirectory]
  unfold Describes
  simp only [ht.at?_join_eq_file_iff hdirectory habsolute hname]
  unfold below
  cases hlocate : d.locate directory with
  | error e => simp
  | ok p =>
    simp only [Except.ok.injEq, exists_eq_left', List.mem_filter, List.mem_map]
    constructor
    · rintro ⟨⟨e, he, rfl⟩, hwanted⟩
      obtain ⟨hhead, content, hmem, hsize⟩ := Disk.mem_filesBelow.mp he
      -- The steps of the file are those of its name.
      have hsteps : Path.steps (ofEntry e).name = e.steps := by
        rw [← List.filter_eq_self.mpr fun c hc => (hname c hc).moves]
        exact Path.filter_steps_intercalate (ht.isName_of_mem hmem hhead)
      refine ⟨hwanted, content, ?_, hsize⟩
      rw [hsteps]
      exact hmem
    · rintro ⟨hwanted, content, hmem, hsize⟩
      refine ⟨⟨⟨Path.steps f.name, f.size, f.modified⟩, ?_, ?_⟩, hwanted⟩
      · exact Disk.mem_filesBelow.mpr ⟨Disk.head?_ne_of_isName hname, content, hmem, hsize⟩
      · unfold ofEntry
        rw [Path.intercalate_steps]

theorem any_below (ht : d.IsTree) (hdirectory : directory ≠ "") {name : String}
    (habsolute : Path.isAbsolute name = false) (hname : ∀ c ∈ Path.steps name, Path.IsName c) :
    (below d directory wanted).any (·.name == name) =
      (wanted name && d.isFile (Path.join directory name)) := by
  rw [Bool.eq_iff_iff, List.any_eq_true, Bool.and_eq_true]
  constructor
  · rintro ⟨f, hf, heq⟩
    obtain rfl := eq_of_beq heq
    obtain ⟨-, hwanted, hfound⟩ := (mem_below_iff ht habsolute hname).mp hf
    exact ⟨hwanted, hfound.isFile⟩
  · rintro ⟨hwanted, hfile⟩
    obtain ⟨f, rfl, hfound⟩ := exists_describes hfile name
    exact ⟨f, (mem_below_iff ht habsolute hname).mpr ⟨hdirectory, hwanted, hfound⟩,
      beq_self_eq_true f.name⟩

theorem pairwise_below (ht : d.IsTree) :
    (below d directory wanted).Pairwise fun f g => f.name ≠ g.name := by
  unfold below
  split
  · rename_i p _
    refine List.Pairwise.filter _ (List.pairwise_map.mpr ?_)
    refine (ht.pairwise_filesBelow p).imp_of_mem fun {e e'} he he' hne heq => hne ?_
    obtain ⟨hhead, content, hmem, -⟩ := Disk.mem_filesBelow.mp he
    obtain ⟨hhead', content', hmem', -⟩ := Disk.mem_filesBelow.mp he'
    calc e.steps = (Path.steps (ofEntry e).name).filter Path.moves :=
          (Path.filter_steps_intercalate (ht.isName_of_mem hmem hhead)).symm
      _ = (Path.steps (ofEntry e').name).filter Path.moves := by rw [heq]
      _ = e'.steps := Path.filter_steps_intercalate (ht.isName_of_mem hmem' hhead')
  · exact List.Pairwise.nil

/-! ## A search -/

theorem wanted_of_mem_below (h : f ∈ below d directory wanted) : wanted f.name = true := by
  unfold below at h
  split at h
  · exact (List.mem_filter.mp h).2
  · cases h

/-- Both walks of a search together list a name once. -/
theorem pairwise_name_ne (ht : d.IsTree) (m : Glob.Matcher) :
    (search s d m).Pairwise fun f g => f.name ≠ g.name := by
  unfold search
  refine (List.Perm.pairwise_iff Ne.symm (List.mergeSort_perm _ _)).mpr ?_
  refine List.pairwise_append.mpr ⟨pairwise_below ht, pairwise_below ht, fun f hf g hg heq => ?_⟩
  have hwanted := wanted_of_mem_below hg
  simp only [Bool.and_eq_true, Bool.not_eq_true', List.any_eq_false] at hwanted
  exact hwanted.2 f hf (beq_iff_eq.mpr heq)

theorem pairwise_name_le (m : Glob.Matcher) :
    (search s d m).Pairwise fun f g => f.name ≤ g.name := by
  unfold search
  refine List.Pairwise.imp of_decide_eq_true (List.pairwise_mergeSort ?_ ?_ _)
  · intro f g h hfg hgh
    exact decide_eq_true (String.le_trans (of_decide_eq_true hfg) (of_decide_eq_true hgh))
  · intro f g
    simpa using String.le_total f.name g.name

theorem pairwise_name_lt (ht : d.IsTree) (m : Glob.Matcher) :
    (search s d m).Pairwise fun f g => f.name < g.name := by
  refine (pairwise_name_le m).imp₂ (fun f g hle hne => ?_) (pairwise_name_ne ht m)
  exact String.not_le.mp fun hge => hne (String.le_antisymm hle hge)

/-- A search lists a file exactly if its name matches and can be read, with the size and the time of
what would be read. Of an empty game directory only the data directory is searched. -/
theorem mem_search_iff (ht : d.IsTree) (m : Glob.Matcher) (hsafe : isSafeName f.name = true)
    (hname : ∀ c ∈ Path.steps f.name, Path.IsName c) :
    f ∈ search s d m ↔ m.accepts f.name = true ∧
      ∃ path, s.readPath d f.name = .ok path ∧ f.Describes d path ∧
        (s.directory = "" → d.isFile (Path.join s.data f.name) = true) := by
  have habsolute := (steps_of_isSafeName hsafe).1
  have hdata := s.data_ne_empty
  unfold search
  rw [List.mem_mergeSort, List.mem_append, mem_below_iff ht habsolute hname,
    mem_below_iff ht habsolute hname, any_below ht hdata habsolute hname]
  constructor
  · rintro (⟨-, haccepts, hfound⟩ | ⟨hdirectory, hwanted, hfound⟩)
    · exact ⟨haccepts, _, (Sandbox.readPath_eq_ok_iff hsafe).mpr (Or.inl ⟨hfound.isFile, rfl⟩),
        hfound, fun _ => hfound.isFile⟩
    · rw [Bool.and_eq_true, Bool.and_eq_true, Bool.not_eq_true'] at hwanted
      obtain ⟨⟨hallowed, haccepts⟩, hunlisted⟩ := hwanted
      -- The first walk would have listed the name if there were such a file in the data directory.
      rw [haccepts, Bool.true_and] at hunlisted
      exact ⟨haccepts, _, (Sandbox.readPath_eq_ok_iff hsafe).mpr
        (Or.inr ⟨hunlisted, hallowed, hfound.isFile, rfl⟩), hfound, fun h => absurd h hdirectory⟩
  · rintro ⟨haccepts, path, hread, hfound, hempty⟩
    rcases (Sandbox.readPath_eq_ok_iff hsafe).mp hread with ⟨-, rfl⟩ | ⟨hmissing, hallowed, -, rfl⟩
    · exact Or.inl ⟨hdata, haccepts, hfound⟩
    · refine Or.inr ⟨fun h => ?_, ?_, hfound⟩
      · rw [hempty h] at hmissing
        cases hmissing
      · rw [hallowed, haccepts, hmissing]
        rfl

/-- **Searching and opening see the same files.** On a tree, the names that a search lists increase,
and a name without empty steps and `.` is listed exactly if it matches and can be read, where of an
empty game directory only the data directory counts. The size listed is that of the very file that
would be read: the one in the data directory if there is one, and the one that may be read from the
game directory otherwise. -/
theorem search_lists_readable (s : Sandbox) (d : Disk) (m : Glob.Matcher) (ht : d.IsTree) :
    (search s d m).Pairwise (fun f g => f.name < g.name) ∧
    ∀ name, isSafeName name = true → (∀ c ∈ Path.steps name, c ≠ "" ∧ c ≠ ".") →
      ((∃ f ∈ search s d m, f.name = name) ↔
        m.accepts name = true ∧ (∃ path, s.readPath d name = .ok path) ∧
          (s.directory = "" → d.isFile (Path.join s.data name) = true)) ∧
      ∀ f ∈ search s d m, f.name = name → ∃ path content,
        s.readPath d name = .ok path ∧ d.read path = .ok content ∧ f.size = content.length ∧
        (d.isFile (Path.join s.data name) = true ∧ path = Path.join s.data name ∨
          d.isFile (Path.join s.data name) = false ∧ Sandbox.fallbackAllowed name = true ∧
            path = Path.join s.directory name) := by
  refine ⟨pairwise_name_lt ht m, fun name hsafe hmoves => ?_⟩
  have hname := isName_of_isSafeName hsafe hmoves
  refine ⟨⟨?_, ?_⟩, ?_⟩
  · rintro ⟨f, hf, rfl⟩
    obtain ⟨haccepts, path, hread, -, hempty⟩ := (mem_search_iff ht m hsafe hname).mp hf
    exact ⟨haccepts, ⟨path, hread⟩, hempty⟩
  · rintro ⟨haccepts, ⟨path, hread⟩, hempty⟩
    obtain ⟨f, rfl, hfound⟩ := exists_describes (Sandbox.isFile_of_readPath hsafe hread) name
    exact ⟨f, (mem_search_iff ht m hsafe hname).mpr ⟨haccepts, path, hread, hfound, hempty⟩, rfl⟩
  · rintro f hf rfl
    obtain ⟨-, path, hread, ⟨content, hfile, hsize⟩, -⟩ := (mem_search_iff ht m hsafe hname).mp hf
    refine ⟨path, content, hread, Disk.read_of_at? hfile, hsize, ?_⟩
    rcases (Sandbox.readPath_eq_ok_iff hsafe).mp hread with hdata | ⟨hmissing, hallowed, -, hpath⟩
    · exact Or.inl hdata
    · exact Or.inr ⟨hmissing, hallowed, hpath⟩

/-- A game directory with two configurations, one of which the data directory has as well. -/
def overlaid : Disk :=
  ⟨[(["game"], .directory), (["game", "configs"], .directory),
    (["game", "configs", "a.cfg"], .file [1] 0), (["game", "configs", "b.cfg"], .file [1, 2] 0),
    (["game", "data"], .directory), (["game", "data", "configs"], .directory),
    (["game", "data", "configs", "a.cfg"], .file [1, 2, 3] 0)]⟩

theorem search_lists_readable_overlaid :
    overlaid.IsTree ∧
    ∃ f ∈ search ⟨"game"⟩ overlaid (Glob.starMatcher "configs/" ".cfg"),
      f.name = "configs/a.cfg" ∧ f.size = 3 := by
  have htree : overlaid.IsTree := by decide +kernel
  have hsafe : isSafeName "configs/a.cfg" = true := by decide +kernel
  have hread : Sandbox.readPath ⟨"game"⟩ overlaid "configs/a.cfg" = .ok "game/data/configs/a.cfg" :=
    (Sandbox.readPath_eq_ok_iff hsafe).mpr (Or.inl ⟨by decide +kernel, by decide +kernel⟩)
  obtain ⟨-, hlists⟩ := search_lists_readable ⟨"game"⟩ overlaid
    (Glob.starMatcher "configs/" ".cfg") htree
  obtain ⟨hlisted, hsize⟩ := hlists "configs/a.cfg" hsafe (by decide +kernel)
  obtain ⟨f, hf, hname⟩ := hlisted.mpr ⟨by decide +kernel, ⟨_, hread⟩, nofun⟩
  obtain ⟨path, content, hpath, hcontent, hlength, -⟩ := hsize f hf hname
  refine ⟨htree, f, hf, hname, ?_⟩
  obtain rfl : "game/data/configs/a.cfg" = path := Except.ok.inj (hread.symm.trans hpath)
  have hfile : overlaid.at? "game/data/configs/a.cfg" = some (.file [1, 2, 3] 0) := by
    decide +kernel
  rw [hlength, ← Except.ok.inj ((Disk.read_of_at? hfile).symm.trans hcontent)]
  rfl

/-- A configuration where the program runs, and no data directory. -/
def configured : Disk :=
  ⟨[(["configs"], .directory), (["configs", "a.cfg"], .file [1] 0)]⟩

/-- A file of an empty game directory can be read, and a search that its name matches does not list
it. -/
theorem empty_directory_unsearched :
    configured.IsTree ∧ isSafeName "configs/a.cfg" = true ∧
    (∀ c ∈ Path.steps "configs/a.cfg", c ≠ "" ∧ c ≠ ".") ∧
    (Glob.starMatcher "configs/" ".cfg").accepts "configs/a.cfg" = true ∧
    Sandbox.readPath ⟨""⟩ configured "configs/a.cfg" = .ok "configs/a.cfg" ∧
    search ⟨""⟩ configured (Glob.starMatcher "configs/" ".cfg") = [] := by
  have hsafe : isSafeName "configs/a.cfg" = true := by decide +kernel
  refine ⟨by decide +kernel, hsafe, by decide +kernel, by decide +kernel, ?_, ?_⟩
  · exact (Sandbox.readPath_eq_ok_iff hsafe).mpr (Or.inr (by decide +kernel))
  · decide +kernel

end FoundFile

end QuakeVm
