/-
ApiStubs.Proofs.ExpansionTheorems — the order of inputs does not matter.

`StandsFor` says which files an input means, without the lists that the
search makes: the file itself, the model files directly in the directory,
or the files that the pattern leads to. What the inputs expand to has the
components of all of these and no others, in strictly increasing order.
Such a list is determined by what is in it. So it is the same, component
by component, for inputs in another order or repeated, and for a file
system that lists its directories in another order
(`expansion_depends_on_set`).

That the repetitions are gone rests on the order: paths are sorted by
their components, so those with the same components stand together,
however they are spelled.
-/
import Mathlib.Data.List.Sort
import ApiStubs.Proofs.CutTheorems
import ApiStubs.Proofs.GlobTheorems
import ApiStubs.Proofs.InputTheorems

namespace ApiStubs

/-! ## Directories in another order -/

namespace FileSystem

variable {fs fs' : FileSystem}

/-- The file systems hold the same, and may list it in different orders. -/
structure Reordered (fs fs' : FileSystem) : Prop where
  currentDir : fs'.currentDir = fs.currentDir
  entries : fs'.entries.Perm fs.entries
  entry? : ∀ location, fs'.entry? location = fs.entry? location

theorem lookup_eq_some_iff_of_nodup {entries : List (Location × Entry)}
    (hnodup : (entries.map (·.1)).Nodup) {location : Location} {entry : Entry} :
    entries.lookup location = some entry ↔ (location, entry) ∈ entries := by
  rw [List.lookup_eq_some_iff]
  constructor
  · rintro ⟨before, after, rfl, -⟩
    simp
  · intro h
    obtain ⟨before, after, rfl⟩ := List.append_of_mem h
    refine ⟨before, after, rfl, fun other hother => bne_iff_ne.mpr ?_⟩
    rw [List.map_append, List.nodup_append] at hnodup
    exact (hnodup.2.2 other.1 (List.mem_map_of_mem hother) location (by simp)).symm

namespace Reordered

theorem refl (fs : FileSystem) : fs.Reordered fs := ⟨rfl, .refl _, fun _ => rfl⟩

theorem symm (h : fs.Reordered fs') : fs'.Reordered fs :=
  ⟨h.currentDir.symm, h.entries.symm, fun location => (h.entry? location).symm⟩

/-- Where no location has two entries, their order does not count. -/
theorem of_perm (hnodup : (fs.entries.map (·.1)).Nodup) (hdir : fs'.currentDir = fs.currentDir)
    (hperm : fs'.entries.Perm fs.entries) : fs.Reordered fs' where
  currentDir := hdir
  entries := hperm
  entry? location := by
    have hnodup' : (fs'.entries.map (·.1)).Nodup := (hperm.map _).nodup_iff.mpr hnodup
    unfold FileSystem.entry?
    split
    · rfl
    · refine Option.ext fun entry => ?_
      rw [lookup_eq_some_iff_of_nodup hnodup', lookup_eq_some_iff_of_nodup hnodup,
        hperm.mem_iff]

theorem sameDirectories (h : fs.Reordered fs') : fs.SameDirectories fs' where
  currentDir := h.currentDir
  directories location := by simp only [isDirectoryAt, h.entry?]

theorem find? (h : fs.Reordered fs') (path : String) : fs'.find? path = fs.find? path := by
  simp only [FileSystem.find?, h.sameDirectories.locate?]
  exact congrArg _ (funext h.entry?)

theorem isFile (h : fs.Reordered fs') (path : String) : fs'.isFile path = fs.isFile path := by
  simp only [FileSystem.isFile, h.find?]

theorem isDirectory (h : fs.Reordered fs') (path : String) :
    fs'.isDirectory path = fs.isDirectory path := by
  simp only [FileSystem.isDirectory, h.find?]

theorem pathExists (h : fs.Reordered fs') (path : String) :
    fs'.pathExists path = fs.pathExists path := by
  simp only [FileSystem.pathExists, h.find?]

theorem mem_list (h : fs.Reordered fs') (path : String) {name : String} :
    name ∈ fs'.list path ↔ name ∈ fs.list path := by
  simp only [FileSystem.list, h.sameDirectories.locate?, h.sameDirectories.directories]
  cases fs.locate? path with
  | none => exact Iff.rfl
  | some location =>
    simp only
    split
    · exact (h.entries.filterMap _).mem_iff
    · exact Iff.rfl

end Reordered

end FileSystem

/-! ## Patterns -/

namespace Glob

variable {fs fs' : FileSystem} {dir path : String}

theorem Listed.reordered (h : fs.Reordered fs') {pieces : List Piece} {isLast : Bool}
    (hlisted : Listed fs pieces isLast dir path) : Listed fs' pieces isLast dir path := by
  obtain ⟨name, hmem, hmatches, hpath, hdirectory⟩ := hlisted
  exact ⟨name, (h.mem_list dir).mpr hmem, hmatches, hpath,
    fun hlast => (h.isDirectory path).trans (hdirectory hlast)⟩

theorem Step.reordered (h : fs.Reordered fs') {pieces : List Piece} {isLast : Bool}
    (hstep : Step fs pieces isLast dir path) : Step fs' pieces isLast dir path := by
  cases hstep with
  | dots literal dots isDirectory => exact .dots literal dots ((h.isDirectory _).trans isDirectory)
  | name literal noDots pathExists =>
    exact .name literal noDots ((h.pathExists _).trans pathExists)
  | wildDots wild isDirectory front dots fits =>
    exact .wildDots wild ((h.isDirectory _).trans isDirectory) front dots fits
  | wildName wild isDirectory listed =>
    exact .wildName wild ((h.isDirectory _).trans isDirectory) (listed.reordered h)

theorem Descends.reordered (h : fs.Reordered fs') {levels : Nat}
    (hdescends : Descends fs levels dir path) : Descends fs' levels dir path := by
  induction hdescends with
  | here => exact .here
  | into mem isDirectory _ ih =>
    exact .into ((h.mem_list _).mpr mem) ((h.isDirectory _).trans isDirectory) ih

theorem Leads.reordered (h : fs.Reordered fs') {parts : List Part}
    (hleads : Leads fs parts dir path) : Leads fs' parts dir path := by
  have hlength : fs'.entries.length = fs.entries.length := h.entries.length_eq
  induction hleads with
  | here => exact .here
  | component step _ ih => exact .component (step.reordered h) ih
  | repeated _ ih => exact .repeated ih
  | deeper some bound descends => exact .deeper some (hlength ▸ bound) (descends.reordered h)
  | within bound descends listed _ ih =>
    exact .within (hlength ▸ bound) (descends.reordered h) (listed.reordered h) ih

theorem Finds.reordered (h : fs.Reordered fs') {pattern : String}
    (hfinds : Finds fs pattern path) : Finds fs' pattern path := by
  obtain ⟨⟨parts, hparts, hleads⟩, hdirectory⟩ := hfinds
  exact ⟨⟨parts, hparts, hleads.reordered h⟩,
    fun hslash => (h.isDirectory path).trans (hdirectory hslash)⟩

end Glob

/-! ## Strictly increasing paths -/

namespace Path

/-- Do the components of one path come before those of another? -/
def Before (as bs : List Component) : Prop :=
  compareComponents as bs = .lt

instance : Std.Irrefl Before where
  irrefl as h := by
    have hself : List.compareLex Component.compare as as = .eq := Std.ReflCmp.compare_self
    rw [Before, compareComponents_eq_compareLex, hself] at h
    cases h

instance : Std.Antisymm Before where
  antisymm as bs h h' := by
    rw [Before, compareComponents_eq_compareLex] at h h'
    exact absurd h' (Std.OrientedCmp.not_lt_of_lt h)

/-- Increasing paths are known by their components. -/
theorem map_components_eq {paths paths' : List String}
    (h : paths.Pairwise fun a b => compare a b = .lt)
    (h' : paths'.Pairwise fun a b => compare a b = .lt)
    (hsame : ∀ cs, cs ∈ paths.map components ↔ cs ∈ paths'.map components) :
    paths.map components = paths'.map components := by
  have hbefore : (paths.map components).Pairwise Before := List.pairwise_map.mpr h
  have hbefore' : (paths'.map components).Pairwise Before := List.pairwise_map.mpr h'
  exact hbefore.eq_of_mem_iff hbefore' hsame

end Path

/-! ## What an input stands for -/

theorem Text.before_eq_some_iff {ending s rest : String} :
    before ending s = some rest ↔ s = rest ++ ending := by
  constructor
  · intro h
    obtain ⟨chars, hchars, rfl⟩ := Option.map_eq_some_iff.mp h
    have hreverse := congrArg List.reverse (afterChars_eq_some hchars)
    apply String.toList_inj.mp
    simpa using hreverse
  · rintro rfl
    simp [before, afterChars_append]

namespace Inputs

section Expansion

variable {fs fs' : FileSystem} {inputs paths : List String} {input path : String}

theorem isModelName_iff {name : String} :
    isModelName name = true ↔ ∃ stem, stem ≠ "" ∧ name = stem ++ ".json" := by
  rw [isModelName, Option.isSome_iff_exists]
  simp only [Option.filter_eq_some_iff, Text.before_eq_some_iff, Bool.not_eq_true',
    String.isEmpty_eq_false_iff, and_comm, ne_eq]

/-- Does the input mean this file: as the file itself, as one of the model
files directly in a directory, or as one that a pattern matches? -/
inductive StandsFor (fs : FileSystem) (input : String) : String → Prop
  | file (isFile : fs.isFile input = true) : StandsFor fs input input
  | member {stem : String} (isDirectory : fs.isDirectory input = true) (named : stem ≠ "")
    (listed : stem ++ ".json" ∈ fs.list input)
    (isFile : fs.isFile (Path.join input (stem ++ ".json")) = true) :
    StandsFor fs input (Path.join input (stem ++ ".json"))
  | matched {path : String} (notFile : fs.isFile input = false)
    (notDirectory : fs.isDirectory input = false) (found : Glob.Finds fs input path)
    (isFile : fs.isFile path = true) : StandsFor fs input path

theorem isFile_eq_false_of_isDirectory (h : fs.isDirectory input = true) :
    fs.isFile input = false := by
  unfold FileSystem.isDirectory at h
  unfold FileSystem.isFile
  cases hfind : fs.find? input with
  | none => rfl
  | some entry => cases entry <;> simp_all [Entry.isDirectory]

theorem mem_modelsIn {dir : String} :
    path ∈ modelsIn fs dir ↔ ∃ stem, stem ≠ "" ∧ stem ++ ".json" ∈ fs.list dir ∧
      path = Path.join dir (stem ++ ".json") ∧ fs.isFile path = true := by
  simp only [modelsIn, List.mem_filter, List.mem_map, isModelName_iff]
  constructor
  · rintro ⟨⟨name, ⟨hlisted, stem, hstem, rfl⟩, rfl⟩, hfile⟩
    exact ⟨stem, hstem, hlisted, rfl, hfile⟩
  · rintro ⟨stem, hstem, hlisted, rfl, hfile⟩
    exact ⟨⟨_, ⟨hlisted, stem, hstem, rfl⟩, rfl⟩, hfile⟩

theorem select_of_isFile (h : fs.isFile input = true) : select fs input = .ok [input] :=
  if_pos h

theorem select_of_isDirectory (h : fs.isDirectory input = true) :
    select fs input = .ok (modelsIn fs input) := by
  rw [select, if_neg (Bool.eq_false_iff.mp (isFile_eq_false_of_isDirectory h)), if_pos h]

/-- An input that is neither file nor directory is a pattern. -/
theorem select_of_pattern (hfile : fs.isFile input = false)
    (hdirectory : fs.isDirectory input = false) {files : List String} :
    select fs input = .ok files ↔
      ∃ paths, Glob.paths? fs input = some paths ∧ paths.filter fs.isFile = files := by
  rw [select, if_neg (Bool.eq_false_iff.mp hfile), if_neg (Bool.eq_false_iff.mp hdirectory)]
  cases Glob.paths? fs input <;> simp

theorem standsFor_iff :
    StandsFor fs input path ↔ ∃ files, select fs input = .ok files ∧ path ∈ files := by
  constructor
  · intro h
    cases h with
    | file isFile => exact ⟨_, select_of_isFile isFile, List.mem_singleton_self _⟩
    | member isDirectory named listed isFile =>
      exact ⟨_, select_of_isDirectory isDirectory,
        mem_modelsIn.mpr ⟨_, named, listed, rfl, isFile⟩⟩
    | matched notFile notDirectory found isFile =>
      obtain ⟨parts, hparts, -⟩ := found.leads
      obtain ⟨paths, hpaths⟩ := Glob.exists_paths_iff.mpr ⟨parts, hparts⟩
      exact ⟨_, (select_of_pattern notFile notDirectory).mpr ⟨paths, hpaths, rfl⟩,
        List.mem_filter.mpr ⟨(Glob.mem_paths_iff hpaths).mpr found, isFile⟩⟩
  · rintro ⟨files, hselect, hpath⟩
    cases hfile : fs.isFile input with
    | true =>
      cases (select_of_isFile hfile).symm.trans hselect
      rw [List.mem_singleton.mp hpath]
      exact .file hfile
    | false =>
      cases hdirectory : fs.isDirectory input with
      | true =>
        cases (select_of_isDirectory hdirectory).symm.trans hselect
        obtain ⟨stem, hstem, hlisted, rfl, hisFile⟩ := mem_modelsIn.mp hpath
        exact .member hdirectory hstem hlisted hisFile
      | false =>
        obtain ⟨paths, hpaths, rfl⟩ := (select_of_pattern hfile hdirectory).mp hselect
        obtain ⟨hmem, hisFile⟩ := List.mem_filter.mp hpath
        exact .matched hfile hdirectory ((Glob.mem_paths_iff hpaths).mp hmem) hisFile

/-- An input is refused only as a pattern that is not well formed. -/
theorem exists_select_iff :
    (∃ files, select fs input = .ok files) ↔
      fs.isFile input = true ∨ fs.isDirectory input = true ∨
        ∃ parts, Glob.parts? input = some parts := by
  cases hfile : fs.isFile input with
  | true => exact ⟨fun _ => .inl rfl, fun _ => ⟨_, select_of_isFile hfile⟩⟩
  | false =>
    cases hdirectory : fs.isDirectory input with
    | true => exact ⟨fun _ => .inr (.inl rfl), fun _ => ⟨_, select_of_isDirectory hdirectory⟩⟩
    | false =>
      simp only [select_of_pattern hfile hdirectory, ← @Glob.exists_paths_iff fs,
        Bool.false_eq_true, false_or]
      exact ⟨fun ⟨_, paths, hpaths, _⟩ => ⟨paths, hpaths⟩,
        fun ⟨paths, hpaths⟩ => ⟨_, paths, hpaths, rfl⟩⟩

theorem selects_iff : Selects fs inputs path ↔ ∃ input ∈ inputs, StandsFor fs input path := by
  simp only [Selects, standsFor_iff]

/-! ## Other orders -/

theorem exists_mapM_iff {α β ε : Type} {f : α → Except ε β} {xs : List α} :
    (∃ ys, xs.mapM f = .ok ys) ↔ ∀ x ∈ xs, ∃ y, f x = .ok y := by
  simp only [mapM_eq_ok_iff]
  induction xs with
  | nil => exact ⟨fun _ => nofun, fun _ => ⟨[], .nil⟩⟩
  | cons x xs ih =>
    rw [List.forall_mem_cons, ← ih]
    constructor
    · rintro ⟨_, _ | ⟨hx, hxs⟩⟩
      exact ⟨⟨_, hx⟩, _, hxs⟩
    · rintro ⟨⟨y, hx⟩, ys, hxs⟩
      exact ⟨y :: ys, .cons hx hxs⟩

/-- Expansion succeeds if it does so for each input. -/
theorem exists_expand_iff :
    (∃ paths, expand fs inputs = .ok paths) ↔
      ∀ input ∈ inputs, ∃ files, select fs input = .ok files := by
  rw [← exists_mapM_iff]
  constructor
  · rintro ⟨paths, h⟩
    obtain ⟨found, hfound, -⟩ := bind_eq_ok_iff.mp h
    exact ⟨found, hfound⟩
  · rintro ⟨found, hfound⟩
    exact ⟨_, bind_eq_ok_iff.mpr ⟨found, hfound, rfl⟩⟩

/-! ## What inputs expand to -/

/-- The components of what inputs expand to are those of the files that
they stand for. -/
theorem mem_map_components_iff (h : expand fs inputs = .ok paths) (cs : List Component) :
    cs ∈ paths.map Path.components ↔
      ∃ input ∈ inputs, ∃ path, StandsFor fs input path ∧ Path.components path = cs := by
  obtain ⟨-, hselected, hkept⟩ := expand_spec h
  rw [List.mem_map]
  constructor
  · rintro ⟨path, hpath, rfl⟩
    obtain ⟨input, hinput, hstands⟩ := selects_iff.mp (hselected path hpath)
    exact ⟨input, hinput, path, hstands, rfl⟩
  · rintro ⟨input, hinput, path, hstands, rfl⟩
    exact hkept path (selects_iff.mpr ⟨input, hinput, hstands⟩)

theorem StandsFor.reordered (h : fs.Reordered fs') (hstands : StandsFor fs input path) :
    StandsFor fs' input path := by
  cases hstands with
  | file isFile => exact .file ((h.isFile _).trans isFile)
  | member isDirectory named listed isFile =>
    exact .member ((h.isDirectory _).trans isDirectory) named ((h.mem_list _).mpr listed)
      ((h.isFile _).trans isFile)
  | matched notFile notDirectory found isFile =>
    exact .matched ((h.isFile _).trans notFile) ((h.isDirectory _).trans notDirectory)
      (found.reordered h) ((h.isFile _).trans isFile)

/-- **What inputs expand to depends on which inputs there are, and on
nothing else.** The paths are strictly increasing and stand for inputs, and
each file that an input stands for is there under some spelling. Inputs in
any order and with any repetitions, in a file system that lists its
directories in any order, expand to the same, component by component. -/
theorem expansion_depends_on_set (h : expand fs inputs = .ok paths) :
    paths.Pairwise (fun a b => Path.compare a b = .lt) ∧
    (∀ path ∈ paths, ∃ input ∈ inputs, StandsFor fs input path) ∧
    (∀ cs, cs ∈ paths.map Path.components ↔
      ∃ input ∈ inputs, ∃ path, StandsFor fs input path ∧ Path.components path = cs) ∧
    ∀ fs' inputs', fs.Reordered fs' → (∀ input, input ∈ inputs' ↔ input ∈ inputs) →
      ∃ paths', expand fs' inputs' = .ok paths' ∧
        paths'.map Path.components = paths.map Path.components := by
  obtain ⟨hsorted, hselected, -⟩ := expand_spec h
  refine ⟨hsorted, fun path hpath => selects_iff.mp (hselected path hpath),
    mem_map_components_iff h, fun fs' inputs' hreordered hinputs => ?_⟩
  obtain ⟨paths', h'⟩ : ∃ paths', expand fs' inputs' = .ok paths' := by
    refine exists_expand_iff.mpr fun input hinput => ?_
    have hselect := exists_expand_iff.mp ⟨paths, h⟩ input ((hinputs input).mp hinput)
    rw [exists_select_iff] at hselect ⊢
    rwa [hreordered.isFile, hreordered.isDirectory]
  refine ⟨paths', h', Path.map_components_eq (expand_spec h').1 hsorted fun cs => ?_⟩
  rw [mem_map_components_iff h, mem_map_components_iff h']
  constructor
  · rintro ⟨input, hinput, path, hstands, hcs⟩
    exact ⟨input, (hinputs input).mp hinput, path, hstands.reordered hreordered.symm, hcs⟩
  · rintro ⟨input, hinput, path, hstands, hcs⟩
    exact ⟨input, (hinputs input).mpr hinput, path, hstands.reordered hreordered, hcs⟩

end Expansion

/-! ## A directory, a file in it and a pattern

The file is named a second time, with a slash too many, and is what the
pattern matches. -/

namespace Doubled

def fs : FileSystem where
  entries := [(["d"], .directory), (["d", "a.json"], .file ByteArray.empty),
    (["d", "b.json"], .file ByteArray.empty)]

def reversed : FileSystem where
  entries := fs.entries.reverse

theorem select_directory : select fs "d" = .ok ["d/a.json", "d/b.json"] := by rfl

theorem select_file : select fs "d//b.json" = .ok ["d//b.json"] := by rfl

theorem paths_pattern : Glob.paths? fs "d/b*" = some ["d/b.json"] := by
  have hparts : Glob.parts? "d/b*"
      = some [.pieces [.char 'd'], .pieces [.char 'b', .anyText]] := by
    have hcomponents : Glob.componentsOf "d/b*" = ["d", "b*"] := rfl
    rw [Glob.parts?, hcomponents]
    simp [Glob.part?, Glob.pieces?]
  rw [Glob.paths?, hparts]
  rfl

theorem select_pattern : select fs "d/b*" = .ok ["d/b.json"] :=
  (select_of_pattern rfl rfl).mpr ⟨_, paths_pattern, rfl⟩

theorem expand_eq : expand fs ["d", "d//b.json", "d/b*"] = .ok ["d/a.json", "d/b.json"] := by
  have hselect : ["d", "d//b.json", "d/b*"].mapM (select fs)
      = .ok [["d/a.json", "d/b.json"], ["d//b.json"], ["d/b.json"]] :=
    mapM_eq_ok_iff.mpr (.cons select_directory (.cons select_file (.cons select_pattern .nil)))
  have hfirst : Path.compare "d/a.json" "d/b.json" = .lt := by rfl
  have hlast : Path.compare "d/a.json" "d//b.json" = .lt := by rfl
  have hsame : Path.compare "d/b.json" "d//b.json" = .eq := by rfl
  have hsame' : Path.compare "d//b.json" "d/b.json" = .eq := by rfl
  have hself : Path.compare "d/b.json" "d/b.json" = .eq := by rfl
  have hsort : (["d/a.json", "d/b.json", "d//b.json", "d/b.json"].mergeSort fun a b =>
      (Path.compare a b).isLE) = ["d/a.json", "d/b.json", "d//b.json", "d/b.json"] :=
    List.mergeSort_of_pairwise (by simp [hfirst, hlast, hsame, hsame', hself])
  rw [expand, hselect]
  show Except.ok (dropRepeats
    (["d/a.json", "d/b.json", "d//b.json", "d/b.json"].mergeSort _)) = _
  rw [hsort, dropRepeats, dropRepeatsAfter, hfirst, if_neg (by decide), dropRepeatsAfter, hsame,
    if_pos rfl, dropRepeatsAfter, hself]
  rfl

theorem reordered : fs.Reordered reversed :=
  .of_perm (by decide) rfl (List.reverse_perm _)

/-- The file is there once, whatever comes first and however it is meant. -/
theorem file_expands_once :
    expand fs ["d", "d//b.json", "d/b*"] = .ok ["d/a.json", "d/b.json"] ∧
      Glob.Finds fs "d/b*" "d/b.json" ∧ StandsFor fs "d/b*" "d/b.json" ∧
      ∀ same ∈ [fs, reversed],
        ∃ paths', expand same ["d/b*", "d//b.json", "d", "d//b.json"] = .ok paths' ∧
          paths'.map Path.components = ["d/a.json", "d/b.json"].map Path.components := by
  obtain ⟨-, -, -, hsame⟩ := expansion_depends_on_set expand_eq
  have hfinds : Glob.Finds fs "d/b*" "d/b.json" :=
    (Glob.mem_paths_iff paths_pattern).mp (List.mem_singleton_self _)
  have hinputs : ∀ input, input ∈ ["d/b*", "d//b.json", "d", "d//b.json"] ↔
      input ∈ ["d", "d//b.json", "d/b*"] := by
    intro input
    simp only [List.mem_cons, List.not_mem_nil]
    tauto
  refine ⟨expand_eq, hfinds, .matched rfl rfl hfinds rfl,
    List.forall_mem_cons.mpr ⟨?_, List.forall_mem_singleton.mpr ?_⟩⟩
  · exact hsame fs _ (.refl fs) hinputs
  · exact hsame reversed _ reordered hinputs

end Doubled

end Inputs

end ApiStubs
