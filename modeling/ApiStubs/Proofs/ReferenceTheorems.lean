/-
ApiStubs.Proofs.ReferenceTheorems — function references and what they
point to.

A reference to a method names the function that the method is (`Referent`)
in the class that owns it. The function applies to that class, and so the
stub of the class shows one version of it, the same for all references
(`Numbered.existsUnique_version`). Versions are told apart by host name
and parameter types, though, while a reference prints a name for scripts:
a version that is shown INSTEAD of the function may go by another name.
`reference_defined_iff` has the exact condition under which the printed
name is defined in the stub.
-/
import Mathlib.Data.List.Pairwise
import ApiStubs.Proofs.OrphanTheorems

namespace ApiStubs

/-! ## Names that an entry defines -/

/-- All names of a function, the primary one first. -/
def Callable.names (f : Callable) : List String :=
  f.name :: f.aliases

/-- Is a function another one, or a version of it? -/
def Callable.IsVersionOf (g f : Callable) : Prop :=
  g = f ∨ g.overrides f = true

theorem Text.concat_cons (s : String) (texts : List String) :
    concat (s :: texts) = s ++ concat texts := rfl

namespace FunctionStub

/-- The lines of an entry after its comment, each with the name that it
defines. -/
def definitions (qualifier : String) (f : FunctionStub) : List (String × String) :=
  let name := qualifier ++ f.callable.name
  (name, "function " ++ name ++ "(" ++ f.signature ++ ") end\n") ::
    f.callable.aliases.map fun other =>
      (qualifier ++ other, qualifier ++ other ++ " = " ++ name ++ "\n")

theorem entry_eq (qualifier : String) (f : FunctionStub) :
    f.entry qualifier
      = "\n" ++ f.comment ++ Text.concat ((f.definitions qualifier).map (·.2)) := by
  simp only [entry, definitions, List.map_cons, List.map_map, Text.concat_cons, Function.comp_def,
    String.append_assoc]

/-- An entry defines the names of its function, qualified. -/
theorem map_fst_definitions (qualifier : String) (f : FunctionStub) :
    (f.definitions qualifier).map (·.1) = f.callable.names.map (qualifier ++ ·) := by
  simp [definitions, Callable.names]

end FunctionStub

/-! ## Owners and callables -/

namespace Surface

variable {s : Surface} {p : Program}

theorem mem_classes_of_ownerFrom {g : TypeGraph} {seen : List TypeId} {id : TypeId}
    {c : ClassInfo} (h : s.ownerFrom g seen id = some c) : c ∈ s.classes := by
  fun_induction ownerFrom s g seen id with
  | case1 => cases h
  | case2 => cases h
  | case3 seen id _ _ found hfound =>
    cases h
    exact List.mem_of_find?_eq_some hfound
  | case4 seen id _ _ _ parent _ ih => exact ih h
  | case5 => cases h

theorem mem_callables_of_callable? {id : MethodId} {f : Callable}
    (h : s.callable? id = some f) : f ∈ s.callables ∧ f.method.id = id :=
  ⟨List.mem_of_find?_eq_some h, by simpa using List.find?_some h⟩

theorem callable?_ne_none {f : Callable} (hf : f ∈ s.callables) :
    s.callable? f.method.id ≠ none := by
  intro hnone
  simpa using List.find?_eq_none.mp hnone f hf

/-- Everything that naming a function looks up. -/
theorem functionName?_eq_some {context : Option TypeId} {owner name text : String}
    (h : s.functionName? p context owner name = some text) :
    ∃ id f c, p.graph.lookup owner = some id ∧ s.callableNamed? p id name = some f ∧
      s.owner? p.graph id = some c ∧
      text = if some c.id = context then f.name else c.referenceName ++ "." ++ f.name := by
  obtain ⟨id, hid, h⟩ := Option.bind_eq_some_iff.mp h
  obtain ⟨f, hf, h⟩ := Option.bind_eq_some_iff.mp h
  obtain ⟨c, hc, h⟩ := Option.bind_eq_some_iff.mp h
  refine ⟨id, f, c, hid, hf, hc, ?_⟩
  split at h
  · next hcontext => rw [if_pos hcontext]; exact (Option.some.inj h).symm
  · next hcontext => rw [if_neg hcontext]; exact (Option.some.inj h).symm

end Surface

namespace Project

variable {project : Project} {c : ClassInfo} {f : Callable}

/-! ## Referents -/

/-- What a reference to a method stands for: the first callable of that
name among the methods of the type, and the class that owns it. -/
structure Referent (project : Project) (owner name : String) (f : Callable) (c : ClassInfo) :
    Prop where
  mem : f ∈ project.surface.callables
  declaredOn : project.program.graph.lookup owner = some f.method.owner
  named : f.method.decl.name = name
  first : ∀ g ∈ project.surface.callables, g.method.owner = f.method.owner →
    g.method.decl.name = name → f.method.id ≤ g.method.id
  ownedBy : project.surface.owner? project.program.graph f.method.owner = some c

/-- The callable that is found by name is the first one of that name. -/
theorem callableNamed?_eq_some {p : Program} (tables : p.Tables) {currentDir : String}
    {config : Config} {id : TypeId} {name : String}
    (h : (Project.of currentDir config p).surface.callableNamed? p id name = some f) :
    f ∈ (Project.of currentDir config p).surface.callables ∧ f.method.owner = id ∧
      f.method.decl.name = name ∧
      ∀ g ∈ (Project.of currentDir config p).surface.callables, g.method.owner = id →
        g.method.decl.name = name → f.method.id ≤ g.method.id := by
  obtain ⟨before, m, after, hsplit, hfound, hbefore⟩ := List.findSome?_eq_some_iff.mp h
  obtain ⟨hf, hid⟩ := Surface.mem_callables_of_callable? hfound
  have hm : m ∈ (p.methodsOf id).filter (·.decl.name = name) := by simp [hsplit]
  obtain ⟨hmof, hname⟩ := List.mem_filter.mp hm
  obtain ⟨hmem, howner⟩ := Program.mem_methodsOf.mp hmof
  have heq : f.method = m := tables.method_ext (method_mem_of_callable hf) hmem hid
  have hincreasing : (before ++ m :: after).Pairwise fun a b => a.id < b.id := by
    rw [← hsplit]
    exact (tables.methods_increasing.filter _).filter _
  refine ⟨hf, heq ▸ howner, by simpa [heq] using hname, fun g hg hgowner hgname => ?_⟩
  have hgm : g.method ∈ before ++ m :: after := by
    rw [← hsplit]
    exact List.mem_filter.mpr
      ⟨Program.mem_methodsOf.mpr ⟨method_mem_of_callable hg, hgowner⟩, by simpa using hgname⟩
  rw [heq]
  rcases List.mem_append.mp hgm with hgm | hgm
  · exact absurd (hbefore _ hgm) (Surface.callable?_ne_none hg)
  · rcases List.mem_cons.mp hgm with hgm | hgm
    · exact le_of_eq (congrArg Method.id hgm.symm)
    · exact le_of_lt (List.rel_of_pairwise_cons (List.pairwise_append.mp hincreasing).2.1 hgm)

/-- A reference that has a name has a referent, and the name is the
referent's: unqualified in the documentation of the class itself, and
after the name of the class everywhere else. -/
theorem exists_referent {p : Program} (tables : p.Tables) {currentDir : String}
    {config : Config} {context : Option TypeId} {owner name text : String}
    (h : (Project.of currentDir config p).resolver context (.method owner name) = some text) :
    ∃ f c, (Project.of currentDir config p).Referent owner name f c ∧
      text = if some c.id = context then f.name else c.referenceName ++ "." ++ f.name := by
  obtain ⟨id, f, c, hid, hf, hc, htext⟩ := Surface.functionName?_eq_some h
  obtain ⟨hmem, rfl, hname, hfirst⟩ := callableNamed?_eq_some tables hf
  exact ⟨f, c, ⟨hmem, hid, hname, hfirst, hc⟩, htext⟩

theorem Referent.mem_classes {owner name : String} (h : project.Referent owner name f c) :
    c ∈ project.surface.classes :=
  Surface.mem_classes_of_ownerFrom h.ownedBy

theorem Referent.mem_applicable {owner name : String} (h : project.Referent owner name f c) :
    f ∈ project.applicable c := by
  refine Project.mem_applicable.mpr ⟨h.mem, applies_iff.mpr (.inl ?_)⟩
  rw [h.ownedBy]
  rfl

/-! ## The version that is shown -/

/-- Of the versions of an applicable function one is shown. -/
theorem Numbered.existsUnique_version (numbered : project.Numbered)
    (hf : f ∈ project.applicable c) :
    ∃ r ∈ project.shown c, r.IsVersionOf f ∧
      ∀ g ∈ project.shown c, g.IsVersionOf f → g = r := by
  have hunique : ∀ r ∈ project.shown c, r.IsVersionOf f →
      ∀ g ∈ project.shown c, g.IsVersionOf f → g = r := by
    intro r hr hrf g hg hgf
    by_contra hne
    rw [numbered.shown_eq] at hr hg
    have : Std.Symm fun a b : Callable => a.overrides b = false ∧ b.overrides a = false :=
      ⟨fun _ _ => And.symm⟩
    obtain ⟨hgr, hrg⟩ :=
      (Callable.pairwise_firstVersions (project.applicable c)).forall hg hr hne
    rcases hgf with rfl | hgf
    · rcases hrf with rfl | hrf
      · exact hne rfl
      · exact absurd hrf (by simp [hrg])
    · rcases hrf with rfl | hrf
      · exact absurd hgf (by simp [hgr])
      · -- Both override `f`, so they override each other.
        have hover : g.overrides r = true :=
          MethodDecl.overrides_trans hgf (MethodDecl.overrides_symm hrf)
        exact absurd hover (by simp [hgr])
  rcases numbered.represented hf with hshown | ⟨g, hg, _, _, hover⟩
  · exact ⟨f, hshown, .inl rfl, hunique f hshown (.inl rfl)⟩
  · exact ⟨g, hg, .inr hover, hunique g hg (.inr hover)⟩

/-- Does an entry in the stub of a class define this name, under the
qualifier of the class? -/
def Defines (project : Project) (c : ClassInfo) (name : String) : Prop :=
  ∃ g ∈ project.shown c, StubDocument.qualifier c ++ name
    ∈ ((project.composed g).definitions (StubDocument.qualifier c)).map (·.1)

theorem defines_iff {name : String} :
    project.Defines c name ↔ ∃ g ∈ project.shown c, name ∈ g.names := by
  have hinjective : Function.Injective (StubDocument.qualifier c ++ ·) :=
    fun _ _ => String.append_right_inj _ |>.mp
  simp only [Defines, FunctionStub.map_fst_definitions, composed_callable,
    List.mem_map_of_injective hinjective]

/-- A function is shown itself if nothing before it overrides it. -/
theorem Numbered.version_eq_iff (numbered : project.Numbered) (hf : f ∈ project.applicable c)
    {r : Callable} (hr : r ∈ project.shown c)
    (hunique : ∀ g ∈ project.shown c, g.IsVersionOf f → g = r) :
    r = f ↔ ∀ e ∈ project.applicable c,
      project.functionKey c e < project.functionKey c f → e.overrides f = false := by
  constructor
  · rintro rfl
    exact (numbered.mem_shown.mp hr).2
  · intro hfirst
    exact (hunique f (numbered.mem_shown.mpr ⟨hf, hfirst⟩) (.inl rfl)).symm

end Project

/-- **When a function reference points to something.** A reference that
has a name prints the primary name of its referent, and the stub of the
class that owns the referent shows exactly one version of it. The printed
name is defined there if that version goes by it, or else only if a
function that is no version of the referent happens to go by it. -/
theorem reference_defined_iff {models : List Model} {p : Program}
    (hbuild : Program.build models = .ok p) (currentDir : String) (config : Config)
    {context : Option TypeId} {owner name text : String}
    (href : (Project.of currentDir config p).resolver context (.method owner name) = some text) :
    let project := Project.of currentDir config p
    ∃ generated, generate currentDir config models = .ok generated ∧
    ∃ f c, project.Referent owner name f c ∧
      text = (if some c.id = context then f.name else c.referenceName ++ "." ++ f.name) ∧
      project.stub c ∈ generated.stubs ∧
      (project.stub c).entries = (project.shown c).map (project.entryIn c) ∧
      (∀ g, project.entryIn c g = "\n" ++ (project.composed g).comment ++
        Text.concat (((project.composed g).definitions (StubDocument.qualifier c)).map (·.2))) ∧
      ∃ r ∈ project.shown c, r.IsVersionOf f ∧
        (∀ g ∈ project.shown c, g.IsVersionOf f → g = r) ∧
        (r = f ↔ ∀ e ∈ project.applicable c,
          project.functionKey c e < project.functionKey c f → e.overrides f = false) ∧
        (project.Defines c f.name ↔ f.name ∈ r.names ∨
          ∃ g ∈ project.shown c, ¬ g.IsVersionOf f ∧ f.name ∈ g.names) := by
  intro project
  have tables : p.Tables := Program.tables_of_build hbuild
  have numbered : project.Numbered := Project.numbered_of tables currentDir config
  obtain ⟨f, c, referent, htext⟩ := Project.exists_referent tables href
  obtain ⟨r, hr, hversion, hunique⟩ := numbered.existsUnique_version referent.mem_applicable
  refine ⟨_, generate_of_build hbuild currentDir config, f, c, referent, htext, ?_,
    numbered.entries_stub, fun g => FunctionStub.entry_eq _ _, r, hr, hversion, hunique,
    numbered.version_eq_iff referent.mem_applicable hr hunique, ?_⟩
  · exact Project.stub_mem_generate referent.mem_classes
  · rw [Project.defines_iff]
    constructor
    · rintro ⟨g, hg, hname⟩
      by_cases hgf : g.IsVersionOf f
      · exact .inl (hunique g hg hgf ▸ hname)
      · exact .inr ⟨g, hg, hgf, hname⟩
    · rintro (hname | ⟨g, hg, _, hname⟩)
      · exact ⟨r, hr, hname⟩
      · exact ⟨g, hg, hname⟩

/-! ## A reference that points nowhere

`Drive` declares `f` for scripts under the name `g`. The undocumented
`Special` below it declares `f` again and keeps the name, so `Drive` owns
both and shows its own. -/

namespace Renamed

def drive : TypeDecl :=
  { id := "a.Drive", name := "Drive", source := ⟨"src/A.java", 1, 0⟩,
    doc := some { body := [.reference ⟨"Special#f", some (.method "a.Special" "f")⟩],
                  tags := [.blockTag "cc.module" [.text "drive"]] },
    methods := [{ name := "f", marker := some { names := some ["g"] },
                  source := ⟨"src/A.java", 2, 0⟩ }] }

def special : TypeDecl :=
  { id := "a.Special", name := "Special", superclass := some "a.Drive",
    source := ⟨"src/A.java", 5, 0⟩,
    methods := [{ name := "f", marker := some {}, source := ⟨"src/A.java", 6, 0⟩ }] }

def driveClass : ClassInfo := ClassInfo.ofAuxiliary ⟨0, drive⟩ false none "drive"

set_option maxRecDepth 2000 in
def sample : ClassSample where
  models := [{ types := [drive, special] }]
  documented := driveClass

def own : Callable :=
  ⟨⟨0, 0, { name := "f", marker := some { names := some ["g"] },
            source := ⟨"src/A.java", 2, 0⟩ }⟩, "g", []⟩

def adopted : Callable :=
  ⟨⟨1, 1, { name := "f", marker := some {}, source := ⟨"src/A.java", 6, 0⟩ }⟩, "f", []⟩

theorem callables_eq : sample.project.surface.callables = [own, adopted] := rfl

theorem owner_special : sample.project.surface.owner? sample.program.graph 1 = some driveClass := by
  unfold Surface.owner? Surface.ownerFrom Surface.ownerFrom
  simp only [Surface.class?, sample.classes_eq]
  rfl

theorem named_special :
    sample.project.surface.callableNamed? sample.program 1 "f" = some adopted := rfl

theorem resolver_special :
    sample.project.resolver (some 0) (.method "a.Special" "f") = some "f" := by
  show sample.project.surface.functionName? sample.program (some 0) "a.Special" "f" = some "f"
  have hid : sample.program.graph.lookup "a.Special" = some 1 := rfl
  simp only [Surface.functionName?, hid, named_special, owner_special, Option.bind_eq_bind,
    Option.bind_some]
  rfl

theorem mem_callables {f : Callable} (h : f ∈ sample.project.surface.callables) :
    f = own ∨ f = adopted := by
  rw [callables_eq] at h
  simpa using h

/-- The documentation of `Drive` refers to the `f` of `Special`, and the
stub of `Drive` defines no `f`. -/
theorem dangling_reference :
    Program.build sample.models = .ok sample.program ∧
      sample.project.resolver (some 0) (.method "a.Special" "f") = some "f" ∧
      sample.project.surface.owner? sample.program.graph 1 = some driveClass ∧
      ¬ sample.project.Defines driveClass "f" := by
  refine ⟨sample.build_models, resolver_special, owner_special, ?_⟩
  obtain ⟨_, _, f, c, referent, _, _, _, _, r, hr, _, _, hiff, hdefines⟩ :=
    reference_defined_iff sample.build_models "/" {} resolver_special
  have numbered : sample.project.Numbered :=
    Project.numbered_of (Program.tables_of_build sample.build_models) "/" {}
  obtain rfl : f = adopted := by
    rcases mem_callables referent.mem with rfl | rfl
    · cases referent.declaredOn
    · rfl
  obtain rfl : driveClass = c := Option.some.inj (owner_special.symm.trans referent.ownedBy)
  -- The `f` of `Drive` itself stands first and overrides the adopted one.
  have hnot : r ≠ adopted := by
    intro heq
    have hfirst := hiff.mp heq own (Project.mem_applicable_of_own List.mem_cons_self rfl)
      (Project.functionKey_lt_of_own rfl (by decide))
    exact absurd hfirst (by decide)
  obtain rfl : r = own := (mem_callables (numbered.shown_subset hr)).resolve_right hnot
  intro hdefined
  rcases hdefines.mp hdefined with hname | ⟨g, hg, hversion, _⟩
  · exact absurd hname (by decide)
  · rcases mem_callables (numbered.shown_subset hg) with rfl | rfl
    · exact hversion (.inr (by decide))
    · exact hversion (.inl rfl)

end Renamed

end ApiStubs
