/-
ApiStubs.Proofs.InputTheorems — which files some inputs stand for.

The files of all inputs are sorted, and of paths that are equal in the
order the first is kept (`expand_spec`). The order compares components, and
a file can be reached along different ones: a directory that is spelled
`.` gives its files a leading `.`, which a file named directly or found by
a wildcard does not have. Such a file is selected twice, and is loaded
twice.

`file_repeats_iff_respelled` has the exact condition. Two of the paths lead to
one file just when that file was selected under different components, and
where the files do not declare a type twice, the run fails over a repeated
type just when such a file declares any. Paths that are made of names
alone are never at fault.
-/
import ApiStubs.Proofs.FailureTheorems
import ApiStubs.Proofs.PathTheorems

namespace ApiStubs.Inputs

section Selection

variable {fs : FileSystem} {inputs paths : List String} {path kept : String}

/-! ## Repeated paths -/

theorem dropRepeatsAfter_sublist (kept : String) (paths : List String) :
    (dropRepeatsAfter kept paths).Sublist paths := by
  induction paths generalizing kept with
  | nil => exact .slnil
  | cons path paths ih =>
    rw [dropRepeatsAfter]
    split
    · exact (ih kept).cons path
    · exact (ih path).cons_cons path

theorem dropRepeats_sublist (paths : List String) : (dropRepeats paths).Sublist paths := by
  cases paths with
  | nil => exact .slnil
  | cons path paths => exact (dropRepeatsAfter_sublist path paths).cons_cons path

/-- What is dropped is equal to something kept. -/
theorem exists_kept_after (h : path ∈ paths) :
    ∃ other ∈ kept :: dropRepeatsAfter kept paths,
      Path.components other = Path.components path := by
  induction paths generalizing kept with
  | nil => cases h
  | cons first paths ih =>
    rw [dropRepeatsAfter]
    split
    · next hsame =>
      rcases List.mem_cons.mp h with rfl | h
      · exact ⟨kept, List.mem_cons_self, Path.compare_eq_iff.mp hsame⟩
      · exact ih h
    · rcases List.mem_cons.mp h with rfl | h
      · exact ⟨path, List.mem_cons_of_mem _ List.mem_cons_self, rfl⟩
      · obtain ⟨other, hother, hsame⟩ : ∃ other ∈ first :: dropRepeatsAfter first paths,
            Path.components other = Path.components path := ih h
        exact ⟨other, List.mem_cons_of_mem _ hother, hsame⟩

theorem exists_kept (h : path ∈ paths) :
    ∃ other ∈ dropRepeats paths, Path.components other = Path.components path := by
  match paths, h with
  | first :: paths, h =>
    rcases List.mem_cons.mp h with rfl | h
    · exact ⟨path, List.mem_cons_self, rfl⟩
    · exact exists_kept_after h

/-- In sorted paths all that are equal to the one kept come next, so that
what is left is strictly increasing. -/
theorem pairwise_dropRepeatsAfter
    (h : (kept :: paths).Pairwise fun a b => (Path.compare a b).isLE = true) :
    (kept :: dropRepeatsAfter kept paths).Pairwise fun a b => Path.compare a b = .lt := by
  induction paths generalizing kept with
  | nil => exact List.pairwise_singleton _ _
  | cons first paths ih =>
    rw [dropRepeatsAfter]
    split
    · exact ih (h.sublist ((List.sublist_cons_self first paths).cons_cons kept))
    · next hdiffer =>
      have hrest := ih (List.pairwise_cons.mp h).2
      have hlt : Path.compare kept first = .lt := by
        have hle := List.rel_of_pairwise_cons h List.mem_cons_self
        cases hcompare : Path.compare kept first with
        | lt => rfl
        | eq => exact absurd hcompare hdiffer
        | gt => simp [hcompare] at hle
      refine List.pairwise_cons.mpr ⟨fun other hother => ?_, hrest⟩
      rcases List.mem_cons.mp hother with rfl | hother
      · exact hlt
      · exact Std.TransCmp.lt_trans hlt (List.rel_of_pairwise_cons hrest hother)

theorem pairwise_dropRepeats
    (h : paths.Pairwise fun a b => (Path.compare a b).isLE = true) :
    (dropRepeats paths).Pairwise fun a b => Path.compare a b = .lt := by
  cases paths with
  | nil => exact .nil
  | cons path paths => exact pairwise_dropRepeatsAfter h

/-! ## Selected paths -/

/-- Does one of the inputs stand for this path? -/
def Selects (fs : FileSystem) (inputs : List String) (path : String) : Prop :=
  ∃ input ∈ inputs, ∃ files, select fs input = .ok files ∧ path ∈ files

theorem mem_flatten_iff {found : List (List String)}
    (h : List.Forall₂ (fun input files => select fs input = .ok files) inputs found) :
    path ∈ found.flatten ↔ Selects fs inputs path := by
  induction h with
  | nil => simp [Selects]
  | cons hinput _ ih =>
    rw [List.flatten_cons, List.mem_append, ih]
    simp [Selects, hinput]

/-- What the inputs stand for, in order: nothing but selected paths, and of
each one that has the same components. -/
theorem expand_spec (h : expand fs inputs = .ok paths) :
    paths.Pairwise (fun a b => Path.compare a b = .lt) ∧
      (∀ path ∈ paths, Selects fs inputs path) ∧
      ∀ path, Selects fs inputs path →
        ∃ kept ∈ paths, Path.components kept = Path.components path := by
  obtain ⟨found, hfound, hpaths⟩ := bind_eq_ok_iff.mp h
  rw [mapM_eq_ok_iff] at hfound
  cases hpaths
  have hsorted : (found.flatten.mergeSort fun a b => (Path.compare a b).isLE).Pairwise
      fun a b => (Path.compare a b).isLE = true :=
    List.pairwise_mergeSort (fun _ _ _ => Std.TransCmp.isLE_trans) Path.isLE_total _
  have hperm := List.mergeSort_perm found.flatten fun a b => (Path.compare a b).isLE
  refine ⟨pairwise_dropRepeats hsorted, fun path hpath => ?_, fun path hpath => ?_⟩
  · exact (mem_flatten_iff hfound).mp
      (hperm.mem_iff.mp ((dropRepeats_sublist _).subset hpath))
  · exact exists_kept (hperm.mem_iff.mpr ((mem_flatten_iff hfound).mpr hpath))

theorem isFile_of_selects (h : Selects fs inputs path) : fs.isFile path = true := by
  obtain ⟨input, -, files, hselect, hpath⟩ := h
  unfold select at hselect
  split at hselect
  · next hfile =>
    cases hselect
    rwa [List.mem_singleton.mp hpath]
  · split at hselect
    · cases hselect
      exact (List.mem_filter.mp hpath).2
    · split at hselect
      · cases hselect
        exact (List.mem_filter.mp hpath).2
      · cases hselect

theorem exists_place (h : Selects fs inputs path) : ∃ place, fs.locate? path = some place := by
  have hfile := isFile_of_selects h
  unfold FileSystem.isFile FileSystem.find? at hfile
  cases hplace : fs.locate? path with
  | none => simp [hplace] at hfile
  | some place => exact ⟨place, rfl⟩

/-! ## Declared types -/

/-- The types that the model in a file declares; none if there is no
model. -/
def idsIn (fs : FileSystem) (path : String) : List String :=
  match (fs.readText? path).bind Model.parse? with
  | some model => model.types.map (·.id)
  | none => []

theorem idsIn_of_holds {model : Model} (h : Holds fs path model) :
    idsIn fs path = model.types.map (·.id) := by
  obtain ⟨text, hread, hparse⟩ := h
  simp [idsIn, hread, hparse]

theorem idsIn_congr {a b : String} (h : fs.locate? a = fs.locate? b) :
    idsIn fs a = idsIn fs b := by
  simp only [idsIn, FileSystem.readText?, FileSystem.find?, h]

theorem map_id_eq_flatMap {models : List Model} (h : List.Forall₂ (Holds fs) paths models) :
    (models.flatMap (·.types)).map (·.id) = paths.flatMap (idsIn fs) := by
  induction h with
  | nil => rfl
  | cons hpath _ ih =>
    rw [List.flatMap_cons, List.flatMap_cons, List.map_append, ih, idsIn_of_holds hpath]

/-- A run fails over a repeated type if all files are loaded and some type
is declared in them twice. -/
theorem duplicateType_iff (fs : FileSystem) (reported : List Diagnostic) (config : Config)
    (paths : List String) :
    (∃ name, (runReporting fs reported config paths).2.2 = .error (.duplicateType name)) ↔
      (∃ models, List.Forall₂ (Holds fs) paths models) ∧ ¬ (paths.flatMap (idsIn fs)).Nodup := by
  rcases exists_firstFault_or_holds fs paths with ⟨e, hfault⟩ | ⟨models, hmodels⟩
  · rw [runReporting_of_firstFault hfault]
    have hload := loadAll_eq_error_iff.mpr hfault
    constructor
    · rintro ⟨name, hname⟩
      cases hname
      obtain ⟨_, _, _, _, _, hwrong⟩ := hfault
      cases hwrong
    · rintro ⟨⟨models, hmodels⟩, -⟩
      cases hload.symm.trans (loadAll_eq_ok_iff.mpr hmodels)
  · rw [← map_id_eq_flatMap hmodels]
    by_cases hnodup : ((models.flatMap (·.types)).map (·.id)).Nodup
    · obtain ⟨p, generated, -, -, -, hrun⟩ :=
        runReporting_of_nodup reported config hmodels hnodup
      refine ⟨fun ⟨name, hname⟩ => ?_, fun ⟨_, hrepeats⟩ => absurd hnodup hrepeats⟩
      rw [hrun] at hname
      rcases writeStubs_result fs config.output generated.stubs with hok | hdir | ⟨_, _, hstub⟩
      · cases hok.symm.trans hname
      · cases hdir.symm.trans hname
      · cases hstub.symm.trans hname
    · obtain ⟨name, hrepeat⟩ := Program.exists_firstRepeat hnodup
      rw [runReporting_of_firstRepeat hmodels hrepeat]
      exact ⟨fun _ => ⟨⟨models, hmodels⟩, hnodup⟩, fun _ => ⟨name, rfl⟩⟩

/-! ## Files that are selected twice -/

/-- No file is selected under different components. -/
def SpelledOnce (fs : FileSystem) (inputs : List String) : Prop :=
  ∀ a b, Selects fs inputs a → Selects fs inputs b → fs.locate? a = fs.locate? b →
    Path.components a = Path.components b

/-- The selected files declare no type twice, each file counted once. -/
structure DeclaredOnce (fs : FileSystem) (inputs : List String) : Prop where
  within : ∀ path, Selects fs inputs path → (idsIn fs path).Nodup
  across : ∀ a b, Selects fs inputs a → Selects fs inputs b → fs.locate? a ≠ fs.locate? b →
    (idsIn fs a).Disjoint (idsIn fs b)

theorem components_ne_of_lt {a b : String} (h : Path.compare a b = .lt) :
    Path.components a ≠ Path.components b := by
  intro hsame
  rw [Path.compare_eq_iff.mpr hsame] at h
  cases h

/-- For what is selected there is a path that leads to the same place. -/
theorem exists_kept_of_selects (h : expand fs inputs = .ok paths) (hpath : Selects fs inputs path) :
    ∃ kept ∈ paths, Path.components kept = Path.components path ∧
      fs.locate? kept = fs.locate? path := by
  obtain ⟨-, hselected, hkept⟩ := expand_spec h
  obtain ⟨kept, hmem, hsame⟩ := hkept path hpath
  obtain ⟨p, hp⟩ := exists_place (hselected kept hmem)
  obtain ⟨q, hq⟩ := exists_place hpath
  exact ⟨kept, hmem, hsame, FileSystem.locate?_eq_of_components hp hq hsame⟩

theorem nodup_places_iff (h : expand fs inputs = .ok paths) :
    (paths.map fs.locate?).Nodup ↔ SpelledOnce fs inputs := by
  obtain ⟨hsorted, hselected, -⟩ := expand_spec h
  constructor
  · intro hnodup a b ha hb hplace
    obtain ⟨keptA, hkeptA, hsameA, hplaceA⟩ := exists_kept_of_selects h ha
    obtain ⟨keptB, hkeptB, hsameB, hplaceB⟩ := exists_kept_of_selects h hb
    have hplaces : fs.locate? keptA = fs.locate? keptB :=
      hplaceA.trans (hplace.trans hplaceB.symm)
    rw [← hsameA, ← hsameB, List.inj_on_of_nodup_map hnodup hkeptA hkeptB hplaces]
  · intro honce
    refine List.pairwise_map.mpr (hsorted.imp_of_mem fun {a b} ha hb hlt hplace => ?_)
    exact components_ne_of_lt hlt (honce a b (hselected a ha) (hselected b hb) hplace)

/-- Where types are declared once, they are repeated just by files that
declare some and are spelled in two ways. -/
theorem nodup_ids_iff (h : expand fs inputs = .ok paths) (honce : DeclaredOnce fs inputs) :
    (paths.flatMap (idsIn fs)).Nodup ↔
      ∀ a b, Selects fs inputs a → Selects fs inputs b → fs.locate? a = fs.locate? b →
        Path.components a ≠ Path.components b → idsIn fs a = [] := by
  obtain ⟨hsorted, hselected, -⟩ := expand_spec h
  rw [List.nodup_flatMap]
  constructor
  · rintro ⟨-, hdisjoint⟩ a b ha hb hplace hdiffer
    obtain ⟨keptA, hkeptA, hsameA, hplaceA⟩ := exists_kept_of_selects h ha
    obtain ⟨keptB, hkeptB, hsameB, hplaceB⟩ := exists_kept_of_selects h hb
    have hne : keptA ≠ keptB := by
      rintro rfl
      exact hdiffer (hsameA.symm.trans hsameB)
    have : Std.Symm (Function.onFun List.Disjoint (idsIn fs)) := ⟨fun _ _ h => h.symm⟩
    have hapart : (idsIn fs keptA).Disjoint (idsIn fs keptB) := hdisjoint.forall hkeptA hkeptB hne
    rw [idsIn_congr hplaceA, idsIn_congr hplaceB, ← idsIn_congr hplace] at hapart
    exact List.eq_nil_iff_forall_not_mem.mpr fun id hid => hapart hid hid
  · intro hempty
    refine ⟨fun path hpath => honce.within path (hselected path hpath), ?_⟩
    refine hsorted.imp_of_mem fun {a b} ha hb hlt => ?_
    by_cases hplace : fs.locate? a = fs.locate? b
    · have hnone := hempty a b (hselected a ha) (hselected b hb) hplace (components_ne_of_lt hlt)
      simp [Function.onFun, hnone]
    · exact honce.across a b (hselected a ha) (hselected b hb) hplace

/-- **A file counts twice just when it is spelled in two ways.** The paths
that inputs stand for are strictly increasing, and lead to the selected
files. No two of them lead to one file just when no file is selected under
different components, as where all selected paths are made of names alone.
If the files declare no type twice, each file counted once, then a run on
these paths fails over a repeated type just when all of them are loaded and
a file that declares some type was selected under different components. -/
theorem file_repeats_iff_respelled (h : expand fs inputs = .ok paths) :
    paths.Pairwise (fun a b => Path.compare a b = .lt) ∧
    (∀ place, (∃ path ∈ paths, fs.locate? path = some place) ↔
      ∃ path, Selects fs inputs path ∧ fs.locate? path = some place) ∧
    ((paths.map fs.locate?).Nodup ↔ SpelledOnce fs inputs) ∧
    ((∀ path, Selects fs inputs path → Path.NamesOnly path) → SpelledOnce fs inputs) ∧
    (DeclaredOnce fs inputs → ∀ reported config,
      ((∃ name, (runReporting fs reported config paths).2.2 = .error (.duplicateType name)) ↔
        (∃ models, List.Forall₂ (Holds fs) paths models) ∧
        ∃ a b, Selects fs inputs a ∧ Selects fs inputs b ∧ fs.locate? a = fs.locate? b ∧
          Path.components a ≠ Path.components b ∧ idsIn fs a ≠ [])) := by
  obtain ⟨hsorted, hselected, -⟩ := expand_spec h
  refine ⟨hsorted, fun place => ?_, nodup_places_iff h, fun hnames a b ha hb hplace => ?_,
    fun honce reported config => ?_⟩
  · constructor
    · rintro ⟨path, hpath, hplace⟩
      exact ⟨path, hselected path hpath, hplace⟩
    · rintro ⟨path, hpath, hplace⟩
      obtain ⟨kept, hmem, -, hsame⟩ := exists_kept_of_selects h hpath
      exact ⟨kept, hmem, hsame.trans hplace⟩
  · obtain ⟨place, hfound⟩ := exists_place ha
    exact (hnames a ha).components_eq (hnames b hb) hfound hplace
  · rw [duplicateType_iff, nodup_ids_iff h honce]
    simp only [not_forall, exists_prop]

end Selection

/-! ## A file and its directory

The current directory holds one model file. It is named as a directory,
and the file is named as well. -/

namespace Respelled

def decl : TypeDecl := { id := "a.B", name := "B", source := ⟨"src/A.java", 1, 0⟩ }

def text : String :=
  "\x7b\"types\": [\x7b\"id\": \"a.B\", \"name\": \"B\", "
    ++ "\"source\": \x7b\"file\": \"src/A.java\", \"line\": 1\x7d\x7d]\x7d"

def fs : FileSystem where
  entries := [(["a.json"], .file text.toUTF8)]

def inputs : List String := [".", "a.json"]

theorem select_directory : select fs "." = .ok ["./a.json"] := by rfl

theorem select_file : select fs "a.json" = .ok ["a.json"] := by rfl

/-- A leading `.` comes before names. -/
theorem compare_eq : Path.compare "./a.json" "a.json" = .lt := by rfl

theorem expand_eq : expand fs inputs = .ok ["./a.json", "a.json"] := by
  have hselect : inputs.mapM (select fs) = .ok [["./a.json"], ["a.json"]] :=
    mapM_eq_ok_iff.mpr (.cons select_directory (.cons select_file .nil))
  have hsort : (["./a.json", "a.json"].mergeSort fun a b => (Path.compare a b).isLE)
      = ["./a.json", "a.json"] :=
    List.mergeSort_of_pairwise (by simp [compare_eq])
  rw [expand, hselect]
  show Except.ok (dropRepeats (["./a.json", "a.json"].mergeSort _)) = _
  rw [hsort, dropRepeats, dropRepeatsAfter, compare_eq]
  rfl

theorem parse_text : Model.parse? text = some { types := [decl] } := by rfl

theorem selects_cases {path : String} (h : Selects fs inputs path) :
    path = "./a.json" ∨ path = "a.json" := by
  obtain ⟨input, hinput, files, hselect, hpath⟩ := h
  rcases List.mem_pair.mp hinput with rfl | rfl
  · cases select_directory.symm.trans hselect
    exact .inl (List.mem_singleton.mp hpath)
  · cases select_file.symm.trans hselect
    exact .inr (List.mem_singleton.mp hpath)

theorem locate_eq {path : String} (h : Selects fs inputs path) :
    fs.locate? path = some ["a.json"] := by
  rcases selects_cases h with rfl | rfl
  · rfl
  · rfl

theorem holds {path : String} (h : fs.locate? path = some ["a.json"]) :
    Holds fs path { types := [decl] } := by
  refine ⟨text, ?_, parse_text⟩
  have hfind : fs.find? path = some (.file text.toUTF8) := by
    rw [FileSystem.find?, h]
    rfl
  rw [FileSystem.readText?, hfind]
  exact dif_pos text.isValidUTF8

theorem declaredOnce : DeclaredOnce fs inputs where
  within path hpath := by
    rw [idsIn_of_holds (holds (locate_eq hpath))]
    exact List.nodup_singleton _
  across a b ha hb hplace := absurd ((locate_eq ha).trans (locate_eq hb).symm) hplace

/-- The file is given twice, and the run fails over the type that it
declares once. -/
theorem directory_repeats_file :
    expand fs inputs = .ok ["./a.json", "a.json"] ∧
      ¬ (["./a.json", "a.json"].map fs.locate?).Nodup ∧ DeclaredOnce fs inputs ∧
      ∃ name, (runReporting fs [] {} ["./a.json", "a.json"]).2.2
        = .error (.duplicateType name) := by
  obtain ⟨-, -, hplaces, -, hrun⟩ := file_repeats_iff_respelled expand_eq
  have hdirectory : Selects fs inputs "./a.json" :=
    ⟨".", List.mem_cons_self, _, select_directory, List.mem_cons_self⟩
  have hfile : Selects fs inputs "a.json" :=
    ⟨"a.json", List.mem_cons_of_mem _ List.mem_cons_self, _, select_file, List.mem_cons_self⟩
  have hplace : fs.locate? "./a.json" = fs.locate? "a.json" := rfl
  have hdiffer : Path.components "./a.json" ≠ Path.components "a.json" := by decide
  refine ⟨expand_eq, fun hnodup => ?_, declaredOnce, (hrun declaredOnce [] {}).mpr ⟨?_, ?_⟩⟩
  · exact hdiffer (hplaces.mp hnodup _ _ hdirectory hfile hplace)
  · exact ⟨_, .cons (holds rfl) (.cons (holds rfl) .nil)⟩
  · refine ⟨_, _, hdirectory, hfile, hplace, hdiffer, ?_⟩
    rw [idsIn_of_holds (holds rfl)]
    exact List.cons_ne_nil _ _

end Respelled

end ApiStubs.Inputs
