/-
ApiStubs.Proofs.ArtifactTheorems — what a run leaves in the file system.

Stubs are named after the modules that their types document, and two
types may document the same module. Nothing compares the names before the
stubs are written, so the files are settled by writing alone: of the
stubs that lead to one place, the last one is found there afterwards
(`lastAt`), and every write is counted, also one that takes the place of
another.

`writeEach_ok` has the whole of it for writing. It rests on one fact:
writing a file makes no directory and takes none away, so that paths lead
to the same places before and after (`FileSystem.SameDirectories`).
`run_last_stub_wins` is the statement about a run, with the exact
conditions under which every stub is found in its file and under which
the count is that of the files.
-/
import Mathlib.Data.List.Dedup
import ApiStubs.Files.Run
import ApiStubs.Proofs.SurfaceEmbedding
import ApiStubs.Proofs.StubContentTheorems

namespace ApiStubs

namespace FileSystem

variable {fs fs' fs'' : FileSystem} {location other : Location}

/-! ## Entries -/

theorem lookup_filter_ne (hne : other ≠ location) : ∀ entries : List (Location × Entry),
    (entries.filter fun item => item.1 ≠ location).lookup other = entries.lookup other
  | [] => rfl
  | (place, entry) :: entries => by
    rw [List.filter_cons, List.lookup_cons]
    by_cases hplace : place = location
    · have hother : (other == place) = false := by simpa [hplace] using hne
      rw [if_neg (by simpa using hplace), lookup_filter_ne hne entries, hother]
    · rw [if_pos (by simpa using hplace), List.lookup_cons, lookup_filter_ne hne entries]

/-- Putting an entry changes that place alone. -/
theorem entry?_put (hroot : location ≠ []) (entry : Entry) (other : Location) :
    entry? (fs.put location entry) other
      = if other = location then some entry else fs.entry? other := by
  unfold entry? put
  by_cases hother : other = []
  · simp [hother, hroot.symm]
  · by_cases hsame : other = location
    · simp [hsame, hroot]
    · have hne : (other == location) = false := by simpa using hsame
      rw [if_neg hother, if_neg hother, if_neg hsame, List.lookup_cons, hne]
      exact lookup_filter_ne hsame _

theorem ne_root_of_not_directory (h : fs.isDirectoryAt location = false) : location ≠ [] := by
  rintro rfl
  cases h

/-! ## Directories -/

/-- The same directories, and the same current one. -/
structure SameDirectories (fs fs' : FileSystem) : Prop where
  currentDir : fs'.currentDir = fs.currentDir
  directories : ∀ location, fs'.isDirectoryAt location = fs.isDirectoryAt location

namespace SameDirectories

theorem refl (fs : FileSystem) : fs.SameDirectories fs := ⟨rfl, fun _ => rfl⟩

theorem symm (h : fs.SameDirectories fs') : fs'.SameDirectories fs :=
  ⟨h.currentDir.symm, fun l => (h.directories l).symm⟩

theorem trans (h : fs.SameDirectories fs') (h' : fs'.SameDirectories fs'') :
    fs.SameDirectories fs'' :=
  ⟨h'.currentDir.trans h.currentDir, fun l => (h'.directories l).trans (h.directories l)⟩

/-- Following names asks for directories alone. -/
theorem follow (h : fs.SameDirectories fs') (names : List String) :
    ∀ location, fs'.follow location names = fs.follow location names := by
  induction names with
  | nil => exact fun _ => rfl
  | cons name names ih =>
    intro location
    simp only [FileSystem.follow, h.directories, ih]

theorem locate? (h : fs.SameDirectories fs') (path : String) :
    fs'.locate? path = fs.locate? path := by
  simp only [FileSystem.locate?, start, h.currentDir, h.follow]

/-- A file in a place that is no directory. -/
theorem put (hplace : fs.isDirectoryAt location = false) (content : ByteArray) :
    fs.SameDirectories (fs.put location (.file content)) where
  currentDir := rfl
  directories other := by
    unfold isDirectoryAt
    rw [entry?_put (ne_root_of_not_directory hplace)]
    by_cases hother : other = location
    · rw [if_pos hother, hother]
      exact hplace.symm
    · rw [if_neg hother]

end SameDirectories

/-- Nothing but new directories. -/
def OnlyMakes (fs made : FileSystem) : Prop :=
  ∀ location, made.entry? location = fs.entry? location ∨
    (fs.entry? location = none ∧ made.entry? location = some .directory)

theorem OnlyMakes.refl (fs : FileSystem) : fs.OnlyMakes fs := fun _ => .inl rfl

theorem OnlyMakes.trans (h : fs.OnlyMakes fs') (h' : fs'.OnlyMakes fs'') : fs.OnlyMakes fs'' := by
  intro location
  rcases h' location with hsame' | ⟨hnone', hmade'⟩
  · rw [hsame']
    exact h location
  · rcases h location with hsame | ⟨-, hmade⟩
    · exact .inr ⟨hsame ▸ hnone', hmade'⟩
    · exact absurd (hmade.symm.trans hnone') nofun

theorem OnlyMakes.put (hnone : fs.entry? location = none) :
    fs.OnlyMakes (fs.put location .directory) := by
  have hroot : location ≠ [] := by
    rintro rfl
    cases hnone
  intro other
  rw [entry?_put hroot]
  by_cases hother : other = location
  · exact .inr ⟨hother ▸ hnone, if_pos hother⟩
  · exact .inl (if_neg hother)

theorem onlyMakes_makeAlong (location : Location) (names : List String) :
    fs.OnlyMakes (fs.makeAlong location names).1 := by
  fun_induction makeAlong fs location names with
  | case1 => exact .refl _
  | case2 => assumption
  | case3 => assumption
  | case4 => exact .refl _
  | case5 => assumption
  | case6 => exact .refl _
  | case7 _ _ _ _ _ _ _ _ hnone ih => exact (OnlyMakes.put hnone).trans ih

theorem onlyMakes_makeDirectories (fs : FileSystem) (path : String) :
    fs.OnlyMakes (fs.makeDirectories path).1 := by
  unfold makeDirectories
  dsimp only
  split
  · exact .refl _
  split
  · exact .refl _
  split
  · exact onlyMakes_makeAlong _ _
  · exact onlyMakes_makeAlong _ _

/-! ## Writing one file -/

theorem writeText?_eq_some_iff {path text : String} :
    fs.writeText? path text = some fs' ↔ ∃ location, fs.locate? path = some location ∧
      fs.isDirectoryAt location = false ∧ fs' = fs.put location (.file text.toUTF8) := by
  unfold writeText?
  cases fs.locate? path with
  | none => simp
  | some location =>
    cases hdirectory : fs.isDirectoryAt location with
    | true => simp [hdirectory]
    | false => simp [hdirectory, eq_comm (a := fs')]

end FileSystem

/-! ## Writing stubs -/

namespace StubDocument

/-- The place that the path of the stub's file leads to. -/
def place? (stub : StubDocument) (fs : FileSystem) (dir : String) : Option Location :=
  fs.locate? (Path.join dir stub.fileName)

/-- Can the stub's file be written? -/
def Writable (stub : StubDocument) (fs : FileSystem) (dir : String) : Prop :=
  ∃ location, stub.place? fs dir = some location ∧ fs.isDirectoryAt location = false

/-- Is the stub what its file holds? -/
def FoundIn (stub : StubDocument) (fs : FileSystem) (dir : String) : Prop :=
  fs.find? (Path.join dir stub.fileName) = some (.file stub.text.toUTF8)

end StubDocument

/-- The last of the stubs that lead to a place. -/
def lastAt (fs : FileSystem) (dir : String) (stubs : List StubDocument) (location : Location) :
    Option StubDocument :=
  (stubs.filter fun stub => stub.place? fs dir = some location).getLast?

section Writing

open FileSystem

variable {fs fs' next after : FileSystem} {dir : String} {stub : StubDocument}
  {stubs : List StubDocument} {location : Location}

theorem lastAt_cons :
    lastAt fs dir (stub :: stubs) location = (lastAt fs dir stubs location).or
      (if stub.place? fs dir = some location then some stub else none) := by
  unfold lastAt
  by_cases hplace : stub.place? fs dir = some location
  · rw [List.filter_cons_of_pos (by simpa using hplace), if_pos hplace, List.getLast?_cons]
    cases (stubs.filter fun stub => stub.place? fs dir = some location).getLast? <;> rfl
  · rw [List.filter_cons_of_neg (by simpa using hplace), if_neg hplace, Option.or_none]

theorem lastAt_eq_some (h : lastAt fs dir stubs location = some stub) :
    stub ∈ stubs ∧ stub.place? fs dir = some location := by
  simpa using List.mem_filter.mp (List.mem_of_getLast? h)

theorem exists_lastAt (hstub : stub ∈ stubs) (hplace : stub.place? fs dir = some location) :
    ∃ last, lastAt fs dir stubs location = some last := by
  refine Option.ne_none_iff_exists'.mp fun hnone => ?_
  have hempty := List.getLast?_eq_none_iff.mp hnone
  exact List.not_mem_nil (hempty ▸ List.mem_filter.mpr ⟨hstub, by simpa using hplace⟩)

/-- Paths lead to the same places as long as the directories are the same. -/
theorem FileSystem.SameDirectories.place? (h : fs.SameDirectories fs') (stub : StubDocument) :
    stub.place? fs' dir = stub.place? fs dir :=
  h.locate? _

theorem FileSystem.SameDirectories.lastAt (h : fs.SameDirectories fs') :
    lastAt fs' dir stubs location = lastAt fs dir stubs location := by
  simp only [ApiStubs.lastAt, h.place?]

theorem FileSystem.SameDirectories.writable (h : fs.SameDirectories fs')
    (hstub : stub.Writable fs dir) : stub.Writable fs' dir := by
  obtain ⟨location, hplace, hdirectory⟩ := hstub
  exact ⟨location, (h.place? stub).trans hplace, (h.directories location).trans hdirectory⟩

theorem writeEach_cons (fs : FileSystem) (dir : String) (written : Nat) (stub : StubDocument)
    (stubs : List StubDocument) :
    writeEach fs dir written (stub :: stubs) =
      match fs.writeText? (Path.join dir stub.fileName) stub.text with
      | some next => writeEach next dir (written + 1) stubs
      | none => (fs, .error (.unwritable (Path.join dir stub.fileName))) := by
  rfl

theorem writable_iff : stub.Writable fs dir ↔
    ∃ next, fs.writeText? (Path.join dir stub.fileName) stub.text = some next := by
  constructor
  · rintro ⟨place, hplace, hdirectory⟩
    exact ⟨_, writeText?_eq_some_iff.mpr ⟨place, hplace, hdirectory, rfl⟩⟩
  · rintro ⟨next, hwrite⟩
    obtain ⟨place, hplace, hdirectory, -⟩ := writeText?_eq_some_iff.mp hwrite
    exact ⟨place, hplace, hdirectory⟩

/-- One write: the directories stay, and the stub is found in its place. -/
theorem write_step (hwrite : fs.writeText? (Path.join dir stub.fileName) stub.text = some next) :
    fs.SameDirectories next ∧ ∀ location, next.entry? location =
      if stub.place? fs dir = some location then some (.file stub.text.toUTF8)
      else fs.entry? location := by
  obtain ⟨place, hplace, hdirectory, rfl⟩ := writeText?_eq_some_iff.mp hwrite
  refine ⟨.put hdirectory _, fun location => ?_⟩
  rw [entry?_put (ne_root_of_not_directory hdirectory), StubDocument.place?, hplace]
  simp only [Option.some.injEq, eq_comm]

/-- **Writing stubs.** If every stub can be written, all of them are
counted, and every place holds the last stub that leads to it; all other
places are as they were. -/
theorem writeEach_ok (hstubs : ∀ stub ∈ stubs, stub.Writable fs dir) (written : Nat) :
    ∃ after, writeEach fs dir written stubs = (after, .ok (written + stubs.length)) ∧
      fs.SameDirectories after ∧ ∀ location, after.entry? location =
        ((lastAt fs dir stubs location).map fun stub => .file stub.text.toUTF8).or
          (fs.entry? location) := by
  induction stubs generalizing fs written with
  | nil => exact ⟨fs, rfl, .refl fs, fun _ => rfl⟩
  | cons stub stubs ih =>
    obtain ⟨hstub, hrest⟩ := List.forall_mem_cons.mp hstubs
    obtain ⟨next, hwrite⟩ := writable_iff.mp hstub
    obtain ⟨hsame, hnext⟩ := write_step hwrite
    obtain ⟨after, heach, hafter, hentry⟩ :=
      ih (fun s hs => hsame.writable (hrest s hs)) (written + 1)
    refine ⟨after, ?_, hsame.trans hafter, fun location => ?_⟩
    · have hcount : written + (stub :: stubs).length = written + 1 + stubs.length := by
        rw [List.length_cons]
        omega
      rw [writeEach_cons, hwrite, hcount]
      exact heach
    -- A later stub at the same place covers this one.
    · rw [hentry, hsame.lastAt, hnext, lastAt_cons]
      cases lastAt fs dir stubs location with
      | some last => rfl
      | none => by_cases hplace : stub.place? fs dir = some location <;> simp [hplace]

/-- If the stubs were written, they could be. -/
theorem writable_of_writeEach {written count : Nat}
    (h : writeEach fs dir written stubs = (after, .ok count)) :
    ∀ stub ∈ stubs, stub.Writable fs dir := by
  induction stubs generalizing fs written with
  | nil => exact nofun
  | cons stub stubs ih =>
    rw [writeEach_cons] at h
    split at h
    · rename_i next hwrite
      have hsame := (write_step hwrite).1
      exact List.forall_mem_cons.mpr
        ⟨writable_iff.mpr ⟨next, hwrite⟩, fun s hs => hsame.symm.writable (ih h s hs)⟩
    · cases h

/-- After writing, by the places that paths lead to now. -/
theorem writeEach_eq_ok {written count : Nat}
    (h : writeEach fs dir written stubs = (after, .ok count)) :
    count = written + stubs.length ∧
      (∀ stub ∈ stubs, ∃ place, stub.place? after dir = some place) ∧
      (∀ {location stub}, lastAt after dir stubs location = some stub →
        after.entry? location = some (.file stub.text.toUTF8)) ∧
      ∀ {location}, lastAt after dir stubs location = none →
        after.entry? location = fs.entry? location := by
  have hwritable := writable_of_writeEach h
  obtain ⟨after', h', hsame, hentry⟩ := writeEach_ok hwritable written
  cases h.symm.trans h'
  refine ⟨rfl, fun stub hstub => ?_, fun {location stub} hlast => ?_, fun {location} hnone => ?_⟩
  · obtain ⟨place, hplace, -⟩ := hsame.writable (hwritable stub hstub)
    exact ⟨place, hplace⟩
  · rw [hentry, ← hsame.lastAt, hlast]
    rfl
  · rw [hentry, ← hsame.lastAt, hnone]
    rfl

/-- Where a stub's file holds the last stub of its place, all stubs are
found just when the stubs of one place have one text. -/
theorem foundIn_iff (hplaces : ∀ stub ∈ stubs, ∃ place, stub.place? after dir = some place)
    (hlast : ∀ {location stub}, lastAt after dir stubs location = some stub →
      after.entry? location = some (.file stub.text.toUTF8)) :
    (∀ stub ∈ stubs, stub.FoundIn after dir) ↔ ∀ stub ∈ stubs, ∀ other ∈ stubs,
      stub.place? after dir = other.place? after dir → stub.text = other.text := by
  constructor
  · intro hfound stub hstub other hother hplace
    have hsame : after.find? (Path.join dir stub.fileName)
        = after.find? (Path.join dir other.fileName) :=
      congrArg (·.bind after.entry?) hplace
    have hfile := (hfound stub hstub).symm.trans (hsame.trans (hfound other hother))
    exact String.toByteArray_inj.mp (Entry.file.inj (Option.some.inj hfile))
  · intro htext stub hstub
    obtain ⟨place, hplace⟩ := hplaces stub hstub
    obtain ⟨last, hlastAt⟩ := exists_lastAt hstub hplace
    obtain ⟨hmem, hlastPlace⟩ := lastAt_eq_some hlastAt
    have hfind : after.find? (Path.join dir stub.fileName) = after.entry? place :=
      congrArg (·.bind after.entry?) hplace
    rw [StubDocument.FoundIn, hfind, hlast hlastAt,
      htext stub hstub last hmem (hplace.trans hlastPlace.symm)]

theorem length_eq_length_dedup_iff {α : Type} [DecidableEq α] {items : List α} :
    items.length = items.dedup.length ↔ items.Nodup := by
  rw [← List.dedup_eq_self]
  exact ⟨fun h => (List.dedup_sublist items).eq_of_length h.symm, fun h => by rw [h]⟩

end Writing

/-! ## Runs -/

/-- The stubs that are written out. -/
def Generated.visible (generated : Generated) : List StubDocument :=
  generated.stubs.filter (!·.hidden)

section Runs

open FileSystem

variable {fs after : FileSystem} {config : Config} {paths : List String} {generated : Generated}
  {summary : Summary}

theorem writeStubs_eq_ok_iff {dir : String} {stubs : List StubDocument} {written : Nat} :
    writeStubs fs dir stubs = (after, .ok written) ↔
      (fs.makeDirectories dir).2 = true ∧
        writeEach (fs.makeDirectories dir).1 dir 0 (stubs.filter (!·.hidden))
          = (after, .ok written) := by
  unfold writeStubs
  obtain ⟨made, done⟩ := fs.makeDirectories dir
  cases done <;> simp

theorem run_eq_ok_iff :
    run fs config paths = (after, .ok summary) ↔
      ∃ generated, generateFrom fs config paths = .ok generated ∧
        writeStubs fs config.output generated.stubs = (after, .ok summary.written) ∧
        generated.diagnostics = summary.diagnostics := by
  obtain ⟨written, diagnostics⟩ := summary
  unfold run runReporting
  cases generateFrom fs config paths with
  | error e => simp [Except.map]
  | ok generated =>
    rcases hstubs : writeStubs fs config.output generated.stubs with ⟨last, result⟩
    cases result <;> simp [hstubs, Except.map, and_assoc]

/-- **The last stub wins.** After a run that succeeds, the number it gives
is that of the visible stubs, and a place holds the last visible stub that
leads to it; where none leads, at most a directory was made. So every
visible stub is found in its file just when stubs that lead to one place
have one text, and the number is that of the files written just when no
two of them lead to one place. -/
theorem run_last_stub_wins (hrun : run fs config paths = (after, .ok summary)) :
    ∃ generated, generateFrom fs config paths = .ok generated ∧
      summary.written = generated.visible.length ∧
      (∀ stub ∈ generated.visible, ∃ place, stub.place? after config.output = some place) ∧
      (∀ location, match lastAt after config.output generated.visible location with
        | some stub => after.entry? location = some (.file stub.text.toUTF8)
        | none => after.entry? location = fs.entry? location ∨
            (fs.entry? location = none ∧ after.entry? location = some .directory)) ∧
      ((∀ stub ∈ generated.visible, stub.FoundIn after config.output) ↔
        ∀ stub ∈ generated.visible, ∀ other ∈ generated.visible,
          stub.place? after config.output = other.place? after config.output →
            stub.text = other.text) ∧
      (summary.written
          = (generated.visible.map (·.place? after config.output)).dedup.length ↔
        (generated.visible.map (·.place? after config.output)).Nodup) := by
  obtain ⟨generated, hgenerate, hwrite, -⟩ := run_eq_ok_iff.mp hrun
  obtain ⟨-, heach⟩ := writeStubs_eq_ok_iff.mp hwrite
  obtain ⟨hwritten, hplaces, hlast, hrest⟩ := writeEach_eq_ok heach
  rw [Nat.zero_add] at hwritten
  refine ⟨generated, hgenerate, hwritten, hplaces, fun location => ?_,
    foundIn_iff hplaces hlast, ?_⟩
  · split
    · rename_i stub hstub
      exact hlast hstub
    · rename_i hnone
      rw [hrest hnone]
      exact onlyMakes_makeDirectories fs config.output location
  · have hcount : summary.written
        = (generated.visible.map (·.place? after config.output)).length :=
      hwritten.trans (List.length_map _).symm
    rw [hcount]
    exact length_eq_length_dedup_iff

end Runs

/-- Loading a model is parsing the text that was written. -/
theorem Inputs.load_of_find? {fs : FileSystem} {path text : String} {model : Model}
    (hfind : fs.find? path = some (.file text.toUTF8)) (hparse : Model.parse? text = some model) :
    Inputs.load fs path = .ok model := by
  have hread : fs.readText? path = some text := by
    rw [FileSystem.readText?, hfind]
    exact dif_pos text.isValidUTF8
  rw [Inputs.load, hread]
  dsimp only
  rw [hparse]

/-! ## Two types of one module

`Clock` and `Timer` both document the module `os`, each in a model file of
its own. The files spell their models by position. -/

namespace Twins

def clock : TypeDecl :=
  { id := "a.Clock", name := "Clock", source := ⟨"A", 1, 0⟩,
    doc := some { tags := [.blockTag "cc.module" [.text "os"]] } }

def timer : TypeDecl :=
  { id := "a.Timer", name := "Timer", source := ⟨"A", 2, 0⟩,
    doc := some { tags := [.blockTag "cc.module" [.text "os"]] } }

def clockText : String :=
  "[[[\"a.Clock\",\"Clock\",\"class\",null,[],[\"A\",1],
    [[],[[\"block_tag\",\"cc.module\",[[\"text\",\"os\"]]]]]]]]"

def timerText : String :=
  "[[[\"a.Timer\",\"Timer\",\"class\",null,[],[\"A\",2],
    [[],[[\"block_tag\",\"cc.module\",[[\"text\",\"os\"]]]]]]]]"

def fs : FileSystem where
  entries := [(["a.json"], .file clockText.toUTF8), (["b.json"], .file timerText.toUTF8)]

def sample : Sample where
  models := [{ types := [clock] }, { types := [timer] }]
  config := { output := "out" }

def clockClass : ClassInfo := ClassInfo.ofAuxiliary ⟨0, clock⟩ false none "os"

def timerClass : ClassInfo := ClassInfo.ofAuxiliary ⟨1, timer⟩ false none "os"

theorem parse_clockText : Model.parse? clockText = some { types := [clock] } := by rfl

theorem parse_timerText : Model.parse? timerText = some { types := [timer] } := by rfl

theorem load_clock : Inputs.load fs "a.json" = .ok { types := [clock] } :=
  Inputs.load_of_find? rfl parse_clockText

theorem load_timer : Inputs.load fs "b.json" = .ok { types := [timer] } :=
  Inputs.load_of_find? rfl parse_timerText

theorem generateFrom_eq : generateFrom fs sample.config ["a.json", "b.json"]
    = generate "/" sample.config sample.models := by
  rw [generateFrom, Inputs.loadAll, List.mapM_cons, List.mapM_cons, load_clock, load_timer]
  rfl

theorem classes_perm : sample.project.surface.classes.Perm [clockClass, timerClass] :=
  (Surface.classes_perm sample.program {}).trans (.of_eq rfl)

theorem texts_differ :
    (sample.project.stub clockClass).text ≠ (sample.project.stub timerClass).text := by
  decide

/-- What is generated for the two of them. -/
def generated : Generated :=
  { sample.project.generate with
    diagnostics := Surface.problems sample.program {} ++ sample.project.generate.diagnostics }

theorem generateFrom_ok : generateFrom fs sample.config ["a.json", "b.json"] = .ok generated :=
  generateFrom_eq.trans (generate_of_build sample.build_models "/" sample.config)

theorem visible_perm :
    generated.visible.Perm [sample.project.stub clockClass, sample.project.stub timerClass] :=
  (sample.project.stubs_generate.trans (classes_perm.map sample.project.stub)).filter _

theorem place_eq : ∀ stub ∈ generated.visible,
    stub.place? (fs.makeDirectories "out").1 "out" = some ["out", "os.lua"] := by
  have hname : ∀ stub : StubDocument, stub.name = "os" →
      stub.place? (fs.makeDirectories "out").1 "out" = some ["out", "os.lua"] := by
    intro stub hstub
    rw [StubDocument.place?, StubDocument.fileName, hstub]
    rfl
  intro stub hstub
  rcases List.mem_pair.mp (visible_perm.mem_iff.mp hstub) with rfl | rfl
  · exact hname _ rfl
  · exact hname _ rfl

/-- Both stubs are counted, there is one file, and one of the two stubs is
lost. -/
theorem one_of_two_is_lost :
    ∃ after summary, run fs sample.config ["a.json", "b.json"] = (after, .ok summary) ∧
      summary.written = 2 ∧
      generateFrom fs sample.config ["a.json", "b.json"] = .ok generated ∧
      (generated.visible.map (·.place? after sample.config.output)).dedup
        = [some ["out", "os.lua"]] ∧
      ∃ stub ∈ generated.visible, ¬ stub.FoundIn after sample.config.output := by
  have hwritable : ∀ stub ∈ generated.visible,
      stub.Writable (fs.makeDirectories "out").1 "out" :=
    fun stub hstub => ⟨_, place_eq stub hstub, rfl⟩
  obtain ⟨after, heach, hsame, -⟩ := writeEach_ok hwritable 0
  have hrun : run fs sample.config ["a.json", "b.json"]
      = (after, .ok ⟨0 + generated.visible.length, generated.diagnostics⟩) :=
    run_eq_ok_iff.mpr ⟨generated, generateFrom_ok, writeStubs_eq_ok_iff.mpr ⟨rfl, heach⟩, rfl⟩
  obtain ⟨generated', hgenerate, hwritten, -, -, hfound, -⟩ := run_last_stub_wins hrun
  cases generateFrom_ok.symm.trans hgenerate
  have hplace : ∀ stub ∈ generated.visible,
      stub.place? after sample.config.output = some ["out", "os.lua"] :=
    fun stub hstub => (hsame.place? stub).trans (place_eq stub hstub)
  refine ⟨after, _, hrun, hwritten.trans visible_perm.length_eq, generateFrom_ok, ?_, ?_⟩
  · rw [List.map_congr_left hplace, List.map_const', visible_perm.length_eq]
    rfl
  · have hclock := visible_perm.mem_iff.mpr (List.mem_cons_self ..)
    have htimer := visible_perm.mem_iff.mpr (List.mem_cons_of_mem _ (List.mem_singleton_self _))
    have hlost : ¬ ∀ stub ∈ generated.visible, stub.FoundIn after sample.config.output :=
      fun hall => texts_differ (hfound.mp hall _ hclock _ htimer
        ((hplace _ hclock).trans (hplace _ htimer).symm))
    simpa using hlost

end Twins

end ApiStubs
