/-
ApiStubs.Proofs.TableAccessTheorems — every number leads somewhere.

`Describes` says what the tables of a built program hold. Every later
stage reaches into them by number: nodes of the graph, methods,
declarations of types, callables. `Project.InRange` lists where these
numbers come from and that each of them is in its table.

For the graph there is a second way to say it. Reading a node that is not
there is not an error here, it gives a node without name and edges; if a
run ever did that, then a longer table could change its result. It cannot
(`generate_padded`): whatever nodes stand behind the table, the stubs and
the reports stay as they are. `models_fill_tables` has both, with what the
tables hold and when there are none.
-/
import ApiStubs.Proofs.EnlargementTheorems

namespace ApiStubs

/-! ## Nodes behind the table -/

namespace Program

/-- The program with further nodes at the end of its graph. -/
def padded (p : Program) (nodes : List TypeNode) : Program :=
  { p with graph := ⟨p.graph.nodes ++ nodes⟩ }

variable {p : Program} {decls : List TypeDecl} {nodes : List TypeNode}

/-- Names that are there already are found where they were. -/
theorem lookup_padded (hnodes : ∀ node ∈ nodes, node.name ∈ p.graph.names) (name : String) :
    (p.padded nodes).graph.lookup name = p.graph.lookup name := by
  show (p.graph.nodes ++ nodes).findIdx? (·.name = name) = _
  rw [List.findIdx?_append]
  show (p.graph.lookup name).or _ = _
  cases hfound : p.graph.lookup name with
  | some id => rfl
  | none =>
    have hnone : nodes.findIdx? (·.name = name) = none := by
      refine List.findIdx?_eq_none_iff.mpr fun node hnode => decide_eq_false ?_
      rintro rfl
      exact TypeGraph.lookup_eq_none_iff.mp hfound (hnodes node hnode)
    rw [hnone]
    rfl

theorem Describes.embeds_padded (h : p.Describes decls)
    (hnodes : ∀ node ∈ nodes, node.name ∈ p.graph.names) :
    p.Embeds .refl (p.padded nodes) where
  graph :=
    { closed := fun _ _ => h.supertypes_lt
      injective := fun _ _ _ _ heq => heq
      node := by
        intro id node hnode
        rw [TypeNode.rename_refl]
        exact (List.getElem?_append_left (List.getElem?_eq_some_iff.mp hnode).1).trans hnode
      lookup := fun name _ hname => (lookup_padded hnodes name).trans hname
      fresh := by
        intro name other hnone hother
        rw [lookup_padded hnodes, hnone] at hother
        cases hother }
  type_lt := fun _ => h.type_lt
  owner_lt := h.tables.ownerKnown
  type? := fun _ _ => rfl
  methodsOf := fun _ _ => (List.map_id _).symm
  injective := fun _ _ _ _ heq => heq

theorem Describes.extends_padded (h : p.Describes decls)
    (hnodes : ∀ node ∈ nodes, node.name ∈ p.graph.names) :
    p.Extends .refl (p.padded nodes) [] [] where
  embeds := h.embeds_padded hnodes
  tables := h.tables
  tables' :=
    { methodIds := h.methodIds
      ownerKnown := fun m hm => Nat.lt_of_lt_of_le (h.tables.ownerKnown m hm) (by
        simp [padded, TypeGraph.size]) }
  nodup := h.nodup_ids
  nodup' := h.nodup_ids
  types := .of_eq (by simp [padded])
  methods := .of_eq (by simp [padded])
  quiet := by
    intro name _ hnone id hid
    rw [lookup_padded hnodes, hnone] at hid
    cases hid

section Padded

variable (h : p.Describes decls) (hnodes : ∀ node ∈ nodes, node.name ∈ p.graph.names)
  (currentDir : String) (config : Config)

include h hnodes

theorem documentation_padded (caps : Capabilities) :
    Surface.documentation (p.padded nodes) caps = Surface.documentation p caps := by
  have hextends := h.extends_padded hnodes
  refine List.map_congr_left fun t ht => (hextends.ofType (hextends.embeds.type_lt t ht)).trans ?_
  cases ClassInfo.ofType caps p.graph t with
  | error => rfl
  | ok found => cases found <;> rfl

theorem surface_padded (caps : Capabilities) :
    Surface.of (p.padded nodes) caps = Surface.of p caps := by
  rw [Surface.of, documentation_padded h hnodes]
  rfl

theorem projectSurface_padded :
    (Project.of currentDir config (p.padded nodes)).surface
      = (Project.of currentDir config p).surface :=
  surface_padded h hnodes config.capabilities

/-- No type behind the table declares functions. -/
theorem declaringTypes_padded :
    FunctionGroup.declaringTypes (Project.of currentDir config (p.padded nodes))
      = FunctionGroup.declaringTypes (Project.of currentDir config p) := by
  have hsize : (p.padded nodes).graph.size = p.graph.size + nodes.length := List.length_append
  have hnumbered := Project.numbered_of h.tables currentDir config
  unfold FunctionGroup.declaringTypes
  rw [projectSurface_padded h hnodes]
  show (List.range (p.padded nodes).graph.size).filter _ = _
  rw [hsize, List.range_add, List.filter_append]
  refine (congrArg (_ ++ ·) (List.filter_eq_nil_iff.mpr fun id hid => ?_)).trans
    (List.append_nil _)
  obtain ⟨i, _, rfl⟩ := List.mem_map.mp hid
  have hempty : FunctionGroup.callablesOf (Project.of currentDir config p).surface
      (p.graph.size + i) = [] := by
    refine List.filter_eq_nil_iff.mpr fun f hf howner => ?_
    have hlt : f.method.owner < p.graph.size := hnumbered.ownerKnown f hf
    rw [of_decide_eq_true howner] at hlt
    exact absurd hlt (Nat.not_lt.mpr (Nat.le_add_right _ _))
  simp [hempty]

/-- The problems of all groups are the same. -/
theorem groupProblems_padded :
    (FunctionGroup.all (Project.of currentDir config (p.padded nodes))).flatMap (·.problems)
      = (FunctionGroup.all (Project.of currentDir config p)).flatMap (·.problems) := by
  rw [Project.groupProblems_eq, Project.groupProblems_eq, declaringTypes_padded h hnodes,
    projectSurface_padded h hnodes]
  refine List.flatMap_congr fun f hf => ?_
  obtain ⟨t, _, hf⟩ := List.mem_flatMap.mp hf
  exact congrArg FunctionStub.problems
    ((h.extends_padded hnodes).composed currentDir config (List.mem_of_mem_filter hf))

theorem headerProblems_padded :
    StubDocument.headerProblems (Project.of currentDir config (p.padded nodes))
      = StubDocument.headerProblems (Project.of currentDir config p) := by
  rw [StubDocument.headerProblems, StubDocument.headerProblems, projectSurface_padded h hnodes]
  exact List.flatMap_congr fun c hc => congrArg Rendered.problems
    ((h.extends_padded hnodes).classDocumentation currentDir config hc)

theorem orphanNotes_padded :
    (Project.of currentDir config (p.padded nodes)).orphans.map
        (Project.of currentDir config (p.padded nodes)).ownerNote
      = (Project.of currentDir config p).orphans.map (Project.of currentDir config p).ownerNote := by
  have hextends := h.extends_padded hnodes
  have horphans : (Project.of currentDir config (p.padded nodes)).orphans
      = (Project.of currentDir config p).orphans := by
    have hstray : ∀ f ∈ (Project.of currentDir config p).surface.callables,
        (Project.of currentDir config (p.padded nodes)).isStray f.method.owner
          = (Project.of currentDir config p).isStray f.method.owner :=
      fun f hf => hextends.isStray currentDir config (hextends.owner_lt currentDir config hf)
    unfold Project.orphans
    rw [projectSurface_padded h hnodes, List.filter_congr hstray]
  rw [horphans]
  exact List.map_congr_left fun f hf =>
    hextends.ownerNote currentDir config (Project.orphans_subset hf)

theorem problems_padded :
    Surface.problems (p.padded nodes) config.capabilities
      = Surface.problems p config.capabilities := by
  unfold Surface.problems
  rw [documentation_padded h hnodes, surface_padded h hnodes]
  refine congrArg (_ ++ ·) (List.filterMap_congr fun f hf => ?_)
  have hproblem := (h.extends_padded hnodes).dispatchProblem? "/" config hf
  rw [projectSurface_padded h hnodes] at hproblem
  exact hproblem

/-- **What stands behind the table of nodes is never read.** -/
theorem generate_padded :
    (Project.of currentDir config (p.padded nodes)).generate
      = (Project.of currentDir config p).generate := by
  have hextends := h.extends_padded hnodes
  have hstubs : (Project.of currentDir config (p.padded nodes)).generate.stubs
      = (Project.of currentDir config p).generate.stubs := by
    rw [Project.stubs_generate_eq, Project.stubs_generate_eq, projectSurface_padded h hnodes]
    refine congrArg (List.mergeSort · _) (List.map_congr_left fun c hc => ?_)
    exact hextends.stub currentDir config (Renaming.keepsTies_refl p) hc nofun
  have hdiagnostics : (Project.of currentDir config (p.padded nodes)).generate.diagnostics
      = (Project.of currentDir config p).generate.diagnostics := by
    rw [Project.diagnostics_generate, Project.diagnostics_generate,
      (Project.numbered_of hextends.tables currentDir config).orphanNotes_eq,
      (Project.numbered_of hextends.tables' currentDir config).orphanNotes_eq,
      groupProblems_padded h hnodes, headerProblems_padded h hnodes, orphanNotes_padded h hnodes]
  exact congrArg₂ Generated.mk hstubs hdiagnostics

end Padded

/-! ## What the tables hold -/

namespace Describes

variable {p : Program} {decls : List TypeDecl} {t : DeclaredType} {id : TypeId}

/-- Looking up and naming are inverse to each other. -/
theorem lookup_iff (h : p.Describes decls) {name : String} :
    p.graph.lookup name = some id ↔ id < p.graph.size ∧ p.graph.name id = name := by
  constructor
  · intro hname
    exact ⟨TypeGraph.lookup_lt hname, TypeGraph.name_of_lookup hname⟩
  · rintro ⟨hid, rfl⟩
    exact (TypeGraph.lookup_eq_some_iff h.nodup).mpr (TypeGraph.getElem?_names hid)

theorem exists_lookup_iff (h : p.Describes decls) {name : String} :
    (∃ id, p.graph.lookup name = some id) ↔ ∃ decl ∈ decls, name ∈ decl.named := by
  constructor
  · rintro ⟨id, hid⟩
    exact (h.mem_names name).mp (List.mem_of_getElem? (TypeGraph.getElem?_of_lookup hid))
  · rintro ⟨decl, hdecl, hname⟩
    exact h.exists_lookup hdecl hname

theorem kind_type (h : p.Describes decls) (ht : t ∈ p.types) :
    p.graph.kind t.id = some t.decl.kind := by
  rw [TypeGraph.kind, h.node_type t ht]
  rfl

/-- A name that nobody declares has no declaration. -/
theorem type?_of_undeclared (h : p.Describes decls) {name : String}
    (hname : p.graph.lookup name = some id) (hnone : ∀ decl ∈ decls, decl.id ≠ name) :
    p.type? id = none := by
  refine type?_eq_none_iff.mpr fun t ht hid => hnone t.decl (h.mem_types.mp ⟨t, ht, rfl⟩) ?_
  rw [← h.name_type ht, hid, TypeGraph.name_of_lookup hname]

/-- All methods, in the order of the declarations. -/
theorem map_decl_methods (h : p.Describes decls) :
    p.methods.map (·.decl) = decls.flatMap (·.methods) := by
  have hmethods := congrArg (List.map Prod.snd) h.methods
  rw [List.map_map, List.map_flatMap] at hmethods
  calc p.methods.map (·.decl)
      = p.types.flatMap fun t => (t.decl.methods.map fun m => (t.id, m)).map Prod.snd := hmethods
    _ = p.types.flatMap fun t => t.decl.methods := by simp [Function.comp_def]
    _ = decls.flatMap (·.methods) := by rw [← h.types, List.flatMap_map]

end Describes

end Program

/-! ## Numbers in range -/

/-- The names that a marker gives; the method's own if it gives none. -/
def MethodDecl.givenNames (decl : MethodDecl) : List String :=
  match decl.marker.bind (·.names) with
  | some (name :: names) => name :: names
  | _ => [decl.name]

theorem Callable.names_of_ofMethod? {m : Method} {f : Callable}
    (h : Callable.ofMethod? m = some f) : f.names = m.decl.givenNames := by
  obtain ⟨marker, hmarker, rfl⟩ := Option.map_eq_some_iff.mp h
  unfold MethodDecl.givenNames
  rw [hmarker]
  obtain ⟨_ | _ | _⟩ := marker <;> rfl

/-- Every number that a run uses leads to an entry of its table. -/
structure Project.InRange (project : Project) : Prop where
  /-- Names lead to nodes. -/
  lookup : ∀ name id, project.program.graph.lookup name = some id →
    id < project.program.graph.size
  /-- Edges lead to nodes. -/
  edge : ∀ id, ∀ parent ∈ project.program.graph.supertypes id,
    parent < project.program.graph.size
  /-- So does every walk. -/
  ancestor : ∀ id, ∀ above ∈ project.program.graph.ancestors id,
    above < project.program.graph.size
  /-- A declared type is a node and has its declaration. -/
  type : ∀ t ∈ project.program.types, t.id < project.program.graph.size ∧
    project.program.type? t.id = some t.decl
  /-- A documented class is a declared type. -/
  documented : ∀ c ∈ project.surface.classes, c.id < project.program.graph.size ∧
    project.program.type? c.id = some c.decl
  /-- A method stands at its number, and a declared type declares it. -/
  method : ∀ m ∈ project.program.methods, project.program.methods[m.id]? = some m ∧
    ∃ t ∈ project.program.types, t.id = m.owner
  /-- What a method overrides or inherits from is a method. -/
  overridden : ∀ m, ∀ other ∈ project.program.overridden m, other ∈ project.program.methods
  /-- A callable is a method, is found by its number, and has a name. -/
  callable : ∀ f ∈ project.surface.callables, f.method ∈ project.program.methods ∧
    project.surface.callable? f.method.id = some f ∧ f.names = f.method.decl.givenNames ∧
    f.method.decl.givenNames ≠ []
  /-- The owner of what a type declares is a documented class. -/
  owner : ∀ id c, project.surface.owner? project.program.graph id = some c →
    c ∈ project.surface.classes
  /-- The functions of a group are callables, and its type is declared. -/
  group : ∀ group ∈ FunctionGroup.all project,
    (∃ t ∈ project.program.types, t.id = group.enclosing) ∧
      ∀ f ∈ group.functions, f.callable ∈ project.surface.callables

theorem Project.inRange_of {p : Program} {decls : List TypeDecl} (h : p.Describes decls)
    (currentDir : String) (config : Config) : (Project.of currentDir config p).InRange where
  lookup := fun _ _ => TypeGraph.lookup_lt
  edge := fun _ _ => h.supertypes_lt
  ancestor := fun _ => TypeGraph.visit_lt (fun _ _ => h.supertypes_lt) fun _ => h.supertypes_lt
  type := fun t ht => ⟨h.type_lt ht, h.type?_type ht⟩
  documented := by
    intro c hc
    obtain ⟨t, ht, hclass⟩ := Surface.mem_classes.mp hc
    obtain ⟨hid, hdecl⟩ := Surface.of_classOf? hclass
    rw [hid, hdecl]
    exact ⟨h.type_lt ht, h.type?_type ht⟩
  method := by
    intro m hm
    obtain ⟨t, ht, hid, _⟩ := h.exists_owner hm
    exact ⟨h.tables.getElem?_method hm, t, ht, hid⟩
  overridden := by
    intro m other hother
    obtain ⟨t, _, hmem⟩ := List.mem_flatMap.mp (List.mem_of_mem_filter hother)
    exact (Program.mem_methodsOf.mp hmem).1
  callable := by
    intro f hf
    obtain ⟨m, hm, hmf⟩ := Project.mem_callables.mp hf
    obtain rfl := Callable.method_of_ofMethod? hmf
    have hnames := Callable.names_of_ofMethod? hmf
    refine ⟨hm, (Surface.callable?_of h.tables hm).trans hmf, hnames, ?_⟩
    rw [← hnames]
    exact List.cons_ne_nil _ _
  owner := fun _ _ => Surface.mem_classes_of_ownerFrom
  group := by
    intro group hgroup
    obtain ⟨id, hid, rfl⟩ := List.mem_map.mp hgroup
    constructor
    · have hsome := (List.mem_filter.mp hid).2
      obtain ⟨f, hf⟩ := List.exists_mem_of_ne_nil _ (by simpa using hsome)
      obtain ⟨hf, howner⟩ := List.mem_filter.mp hf
      obtain ⟨t, ht, hown, _⟩ := h.exists_owner (Project.method_mem_of_callable hf)
      exact ⟨t, ht, hown.trans (of_decide_eq_true howner)⟩
    · intro f hf
      rw [FunctionGroup.functions_of] at hf
      obtain ⟨callable, hcallable, rfl⟩ := List.mem_map.mp hf
      exact List.mem_of_mem_filter hcallable

/-! ## All models -/

/-- **Models fill the tables, or a name is declared twice.** The run stops
at the first declaration that repeats a name. Otherwise the tables hold the
declarations as they were given, whatever was named before it was declared,
every number that is used later is in range, and nothing behind the table
of nodes is ever read. -/
theorem models_fill_tables (models : List Model) :
    let decls := models.flatMap (·.types)
    (∀ e, Program.build models = .error e ↔
      ∃ name, e = .duplicateType name ∧ Program.FirstRepeat decls name) ∧
    ((decls.map (·.id)).Nodup ↔ ∃ p, Program.build models = .ok p) ∧
    ∀ p, Program.build models = .ok p →
      p.types.map (·.decl) = decls ∧
      (∀ name id, p.graph.lookup name = some id ↔ id < p.graph.size ∧ p.graph.name id = name) ∧
      (∀ name, (∃ id, p.graph.lookup name = some id) ↔ ∃ decl ∈ decls, name ∈ decl.named) ∧
      (∀ t ∈ p.types, p.graph.lookup t.decl.id = some t.id ∧ p.type? t.id = some t.decl ∧
        p.graph.kind t.id = some t.decl.kind ∧
        (p.graph.supertypes t.id).map p.graph.name
          = t.decl.superclass.toList ++ t.decl.interfaces ∧
        (p.methodsOf t.id).map (·.decl) = t.decl.methods ∧
        ∀ m ∈ p.methodsOf t.id, m.owner = t.id) ∧
      (∀ name id, p.graph.lookup name = some id → (∀ decl ∈ decls, decl.id ≠ name) →
        p.graph.kind id = none ∧ p.type? id = none ∧ p.graph.supertypes id = []) ∧
      p.methods.map (·.decl) = decls.flatMap (·.methods) ∧
      p.methods.map (·.id) = List.range p.methods.length ∧
      ∀ currentDir config, (Project.of currentDir config p).InRange ∧
        ∀ nodes, (∀ node ∈ nodes, node.name ∈ p.graph.names) →
          (Project.of currentDir config (p.padded nodes)).generate
              = (Project.of currentDir config p).generate ∧
            Surface.problems (p.padded nodes) config.capabilities
              = Surface.problems p config.capabilities := by
  intro decls
  refine ⟨fun e => Program.build_eq_error_iff, ⟨fun hnodup => ?_, ?_⟩, fun p hbuild => ?_⟩
  · obtain ⟨p, hbuild, _⟩ := Program.describes_build hnodup
    exact ⟨p, hbuild⟩
  · rintro ⟨p, hbuild⟩
    exact Program.nodup_of_build hbuild
  · have h := Program.describes_of_build hbuild
    refine ⟨h.types, fun _ _ => h.lookup_iff, fun _ => h.exists_lookup_iff, fun t ht => ?_,
      fun name id hname hnone => ?_, h.map_decl_methods, h.methodIds, fun currentDir config => ?_⟩
    · exact ⟨h.lookup_type t ht, h.type?_type ht, h.kind_type ht, h.map_name_supertypes ht,
        h.map_decl_methodsOf ht, fun m hm => (Program.mem_methodsOf.mp hm).2⟩
    · have htype := h.type?_of_undeclared hname hnone
      obtain ⟨hkind, _, hsupertypes⟩ := h.of_type?_eq_none htype
      exact ⟨hkind, htype, hsupertypes⟩
    · exact ⟨Project.inRange_of h currentDir config, fun nodes hnodes =>
        ⟨Program.generate_padded h hnodes currentDir config,
          Program.problems_padded h hnodes config⟩⟩

/-! ## Named before it is declared

`Early` is below `Late`, which is declared in a later file and is its own
superclass, and below `x.Only`, which is never declared. -/

namespace Forward

def early : TypeDecl :=
  { id := "a.Early", name := "Early", superclass := some "a.Late", interfaces := ["x.Only"],
    source := ⟨"src/E.java", 1, 0⟩,
    methods := [{ name := "f", marker := some {}, source := ⟨"src/E.java", 2, 0⟩ }] }

def late : TypeDecl :=
  { id := "a.Late", name := "Late", superclass := some "a.Late", source := ⟨"src/L.java", 1, 0⟩,
    methods := [{ name := "g", source := ⟨"src/L.java", 2, 0⟩ }] }

def sample : Sample where
  models := [{ types := [early] }, { types := [late] }]

/-- The tables of both types are filled, `x.Only` stays a name, nothing
behind the three nodes is read, and declaring all of it again is refused. -/
theorem late_is_filled_in :
    Program.build sample.models = .ok sample.program ∧
      (sample.program.graph.supertypes 0).map sample.program.graph.name = ["a.Late", "x.Only"] ∧
      (sample.program.graph.supertypes 1).map sample.program.graph.name = ["a.Late"] ∧
      sample.program.graph.kind 2 = none ∧ sample.program.type? 2 = none ∧
      sample.program.graph.supertypes 2 = [] ∧
      sample.project.InRange ∧
      (Project.of "/" {}
          (sample.program.padded [{ name := "x.Only", kind := some .enumType }])).generate
        = sample.project.generate ∧
      Program.build (sample.models ++ sample.models) = .error (.duplicateType "a.Early") := by
  obtain ⟨_, _, hbuilt⟩ := models_fill_tables sample.models
  obtain ⟨_, _, _, htypes, hnamed, _, _, hrun⟩ := hbuilt sample.program sample.build_models
  obtain ⟨_, _, _, hearly, _⟩ := htypes ⟨0, early⟩ List.mem_cons_self
  obtain ⟨_, _, _, hlate, _⟩ := htypes ⟨1, late⟩ (.tail _ (.head _))
  obtain ⟨hkind, htype, hsupertypes⟩ := hnamed "x.Only" 2 rfl (by decide)
  obtain ⟨hrange, hpadded⟩ := hrun "/" {}
  refine ⟨sample.build_models, hearly, hlate, hkind, htype, hsupertypes, hrange,
    (hpadded [{ name := "x.Only", kind := some .enumType }] (by decide)).1, ?_⟩
  refine ((models_fill_tables (sample.models ++ sample.models)).1 _).mpr ⟨_, rfl, ?_⟩
  exact ⟨[early, late], early, [late], rfl, rfl, by decide, by decide⟩

end Forward

end ApiStubs
