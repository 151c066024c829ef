/-
ApiStubs.Proofs.ExtensionTheorems — one more documented type is a local
change.

A declaration that comes last and that nothing else mentions leaves every
number as it was. It may bring names of its own, be below existing types,
override their functions and share their simple names; none of this
reaches another stub. The new functions apply to no other class: no
class is below the new type, and being documented the type owns its
functions itself or, if it is an interface or an enumeration, nobody does
(`Surface.owner?_of_class`).

`unmentioned_type_is_local` puts this together. What the new type can take
away is a note about a function that had no stub before.
-/
import ApiStubs.Proofs.EnlargementTheorems

namespace ApiStubs

/-- A documented type owns what it declares, or nobody does. -/
theorem Surface.owner?_of_class {s : Surface} (g : TypeGraph) {id : TypeId} {c : ClassInfo}
    (h : s.class? id = some c) : s.owner? g id = none ∨ s.owner? g id = some c := by
  rw [owner?, ownerFrom, dif_neg List.not_mem_nil, h]
  split
  · exact .inl rfl
  · exact .inr rfl

/-! ## Numbers stay -/

theorem TypeDecl.not_mem_ids {decls : List TypeDecl} {decl : TypeDecl}
    (hnew : ∀ old ∈ decls, decl.id ∉ old.mentioned) : decl.id ∉ decls.map (·.id) := by
  intro hmem
  obtain ⟨old, hold, hid⟩ := List.mem_map.mp hmem
  refine hnew old hold ?_
  rw [← hid]
  exact List.mem_append_left _ (List.mem_append_left _ List.mem_cons_self)

namespace Program

/-- The second program has one more type, declared after all others and
not mentioned by them. -/
structure Appends (p p' : Program) (decls : List TypeDecl) (t : DeclaredType) : Prop where
  enlarges : p.Enlarges p' decls (decls ++ [t.decl]) [t.decl]
  types : p'.types = p.types ++ [t]
  number : ∀ id < p.graph.size, (Renaming.between p p').type id = id

/-- A declaration at the end changes no number. -/
theorem Describes.appends {p : Program} {decls : List TypeDecl} (h : p.Describes decls)
    {decl : TypeDecl} (hnew : ∀ old ∈ decls, decl.id ∉ old.mentioned) :
    ∃ p' id, p.declare decl = .ok p' ∧ p.Appends p' decls ⟨id, decl⟩ := by
  have hfresh := TypeDecl.not_mem_ids hnew
  obtain ⟨g, id, hgrows, hid, _, heq⟩ := declare_new h.nodup (h.type?_intern hfresh)
  obtain ⟨p', hdeclare, hdescribes⟩ := h.declare hfresh
  have hp' := Except.ok.inj (hdeclare.symm.trans heq)
  have henlarges : p.Enlarges p' decls (decls ++ [decl]) [decl] :=
    ⟨h, hdescribes, .refl _, fun old hold new hmem => List.mem_singleton.mp hmem ▸ hnew old hold⟩
  refine ⟨p', id, hdeclare, henlarges, by rw [hp'], fun a ha => ?_⟩
  have hkept : p'.graph.lookup (p.graph.name a) = some a := by
    rw [hp', TypeGraph.lookup_congr (TypeGraph.names_fill hid)]
    exact hgrows.lookup (henlarges.lookup_name ha)
  exact Option.some.inj ((henlarges.lookup_type ha).symm.trans hkept)

namespace Appends

variable {p p' : Program} {decls : List TypeDecl} {t : DeclaredType} {c : ClassInfo}

theorem mem_types (h : p.Appends p' decls t) : t ∈ p'.types := by
  rw [h.types]
  exact List.mem_append_right _ (List.mem_singleton_self t)

theorem isOneOf_iff (h : p.Appends p' decls t) {id : TypeId} (hid : id < p'.graph.size) :
    p'.isOneOf [t.decl] id = true ↔ id = t.id := by
  constructor
  · intro hone
    have hname : p'.graph.name id = t.decl.id := by simpa [isOneOf] using hone
    have hlookup := h.enlarges.describes'.lookup_type t h.mem_types
    rw [← hname, (TypeGraph.lookup_eq_some_iff h.enlarges.describes'.nodup).mpr
      (TypeGraph.getElem?_names hid)] at hlookup
    exact Option.some.inj hlookup
  · rintro rfl
    exact h.enlarges.isOneOf_of_mem h.mem_types (List.mem_singleton_self _)

/-- The new type has none of the old numbers. -/
theorem type_ne (h : p.Appends p' decls t) :
    ∀ id < p.graph.size, (Renaming.between p p').type id ≠ t.id := by
  intro id hid heq
  have hold := h.enlarges.isOneOf_type hid
  rw [heq, (h.isOneOf_iff (h.enlarges.describes'.type_lt h.mem_types)).mpr rfl] at hold
  cases hold

/-- Beside the old declarations there are the new type and its methods. -/
theorem extends_between (h : p.Appends p' decls t) :
    p.Extends (Renaming.between p p') p' [t] (p'.methodsOf t.id) := by
  have hextends := h.enlarges.extends_between
  have hold : p.types.filter (p'.isOneOf [t.decl] ·.id) = [] := by
    refine List.filter_eq_nil_iff.mpr fun old hmem => ?_
    have hlt := h.enlarges.describes.type_lt hmem
    have hfalse := h.enlarges.isOneOf_type hlt
    rw [h.number _ hlt] at hfalse
    exact Bool.eq_false_iff.mp hfalse
  have htypes : p'.types.filter (p'.isOneOf [t.decl] ·.id) = [t] := by
    rw [h.types, List.filter_append, hold, List.nil_append]
    refine List.filter_eq_self.mpr (List.forall_mem_singleton.mpr ?_)
    exact (h.isOneOf_iff (h.enlarges.describes'.type_lt h.mem_types)).mpr rfl
  have hmethods : p'.methods.filter (p'.isOneOf [t.decl] ·.owner) = p'.methodsOf t.id := by
    refine List.filter_congr fun m hm => Bool.eq_iff_iff.mpr ?_
    rw [h.isOneOf_iff (h.enlarges.describes'.tables.ownerKnown m hm), decide_eq_true_iff]
  rwa [htypes, hmethods] at hextends

theorem keepsTies (h : p.Appends p' decls t) : (Renaming.between p p').KeepsTies p := by
  intro m hm n hn _ _ _ _ hlt
  have hknown := h.enlarges.describes.tables.ownerKnown
  rw [h.number _ (hknown m hm), h.number _ (hknown n hn)]
  exact hlt

variable {currentDir : String} {config : Config}

/-- Old classes have their old numbers. -/
theorem rename_class (h : p.Appends p' decls t) {caps : Capabilities}
    (hc : c ∈ (Surface.of p caps).classes) :
    c.rename (Renaming.between p p') = c := by
  rw [ClassInfo.rename, h.number _ (h.extends_between.class_lt hc)]

theorem classes (h : p.Appends p' decls t) {new : ClassInfo}
    (hnew : Surface.classOf? config.capabilities p'.graph t = some new) :
    (Project.of currentDir config p').surface.classes.Perm
      (new :: (Project.of currentDir config p).surface.classes) := by
  have hclasses : (Surface.of p' config.capabilities).classes.Perm _ := h.extends_between.classes
  have hsame : (Surface.of p config.capabilities).classes.map (·.rename (Renaming.between p p'))
      = (Surface.of p config.capabilities).classes :=
    (List.map_congr_left fun _ => h.rename_class).trans (List.map_id _)
  rw [hsame, List.filterMap_cons, hnew] at hclasses
  exact hclasses.trans (List.perm_append_singleton new _)

/-! ## The new functions -/

/-- What the new type declares applies to no old class. -/
theorem applies_new (h : p.Appends p' decls t) {new : ClassInfo}
    (hnew : Surface.classOf? config.capabilities p'.graph t = some new)
    (hc : c ∈ (Project.of currentDir config p).surface.classes) :
    (Project.of currentDir config p').applies (c.rename (Renaming.between p p')) t.id = false := by
  have hlt : c.id < p.graph.size := h.extends_between.class_lt hc
  have hfound : (Surface.of p' config.capabilities).class? t.id = some new := by
    rw [Surface.class?_of h.enlarges.describes'.nodup_ids,
      h.enlarges.describes'.type?_type h.mem_types]
    exact hnew
  rw [Bool.eq_false_iff, ne_eq, Project.applies_iff]
  rintro (howner | hsub)
  · rcases Surface.owner?_of_class p'.graph hfound with hnone | hsome
    · cases (congrArg (Option.map (·.id)) hnone).symm.trans howner
    · have hown := (congrArg (Option.map (·.id)) hsome).symm.trans howner
      refine h.type_ne c.id hlt ?_
      rw [← (Surface.of_classOf? hnew).1]
      exact (Option.some.inj hown).symm
  · cases (h.enlarges.graph.not_isSubtype hlt h.type_ne).symm.trans hsub

/-- The stub of an old class is as it was. -/
theorem stub (h : p.Appends p' decls t) {new : ClassInfo}
    (hnew : Surface.classOf? config.capabilities p'.graph t = some new)
    (hc : c ∈ (Project.of currentDir config p).surface.classes) :
    (Project.of currentDir config p').stub c = (Project.of currentDir config p).stub c := by
  have hstub := h.extends_between.stub currentDir config h.keepsTies hc fun m hm => by
    rw [(mem_methodsOf.mp hm).2]
    exact h.applies_new hnew hc
  rwa [h.rename_class hc] at hstub

end Appends

end Program

/-! ## A local change -/

theorem Program.build_append {models models' : List Model} {p : Program} {decl : TypeDecl}
    (hbuild : Program.build models = .ok p)
    (hmodels : models'.flatMap (·.types) = models.flatMap (·.types) ++ [decl]) :
    Program.build models' = p.declare decl := by
  unfold Program.build at hbuild ⊢
  rw [hmodels, List.foldlM_append, hbuild]
  show List.foldlM Program.declare p [decl] = p.declare decl
  rw [List.foldlM_cons]
  cases p.declare decl <;> rfl

/-- A note about a function without a stub. -/
def Diagnostic.IsOwnerNote (d : Diagnostic) : Prop :=
  d.level = .note ∧ ∃ name, d.message = "Cannot find owner for " ++ name

/-- Everything but such notes is among the findings. -/
theorem Project.count_diagnostics {p : Program} (tables : p.Tables) (currentDir : String)
    (config : Config) {d : Diagnostic} (hd : ¬ d.IsOwnerNote) :
    let project := Project.of currentDir config p
    (Surface.problems p config.capabilities ++ project.generate.diagnostics).count d
      = (project.findings config.capabilities p.types project.surface.classes
          project.surface.callables).count d := by
  intro project
  have hnone : (project.orphans.map project.ownerNote).count d = 0 := by
    refine List.count_eq_zero.mpr fun hmem => hd ?_
    obtain ⟨f, _, rfl⟩ := List.mem_map.mp hmem
    exact ⟨rfl, f.name, rfl⟩
  rw [(Project.diagnostics_perm tables currentDir config).count_eq d]
  show List.count d (_ ++ project.orphans.map project.ownerNote) = _
  rw [List.count_append, hnone, Nat.add_zero]

/-- **One more documented type is a local change.** If a declaration comes
after all others, nothing mentions it and it documents a class, then every
stub stays as it was, one stub is added, and nothing that was reported is
missing but notes about functions without a stub. -/
theorem unmentioned_type_is_local {models models' : List Model} {p : Program} {decl : TypeDecl}
    (hbuild : Program.build models = .ok p)
    (hmodels : models'.flatMap (·.types) = models.flatMap (·.types) ++ [decl])
    (hnew : ∀ old ∈ models.flatMap (·.types), decl.id ∉ old.mentioned)
    (currentDir : String) (config : Config)
    (hclass : ∀ p', Program.build models' = .ok p' → ∃ t ∈ p'.types, t.decl = decl ∧
      ∃ c, ClassInfo.ofType config.capabilities p'.graph t = .ok (some c)) :
    ∃ p' c generated generated',
      let project := Project.of currentDir config p
      let project' := Project.of currentDir config p'
      Program.build models' = .ok p' ∧
      generate currentDir config models = .ok generated ∧
      generate currentDir config models' = .ok generated' ∧
      c.decl = decl ∧ project'.surface.classes.Perm (c :: project.surface.classes) ∧
      (∀ old ∈ project.surface.classes, project'.stub old = project.stub old) ∧
      generated.stubs.Perm (project.surface.classes.map project.stub) ∧
      generated'.stubs.Perm (project'.stub c :: generated.stubs) ∧
      ∀ d, ¬ d.IsOwnerNote → generated.diagnostics.count d ≤ generated'.diagnostics.count d := by
  obtain ⟨p', id, hdeclare, h⟩ := (Program.describes_of_build hbuild).appends hnew
  have hbuild' : Program.build models' = .ok p' :=
    (Program.build_append hbuild hmodels).trans hdeclare
  obtain ⟨t, ht, hdecl, c, hc⟩ := hclass p' hbuild'
  obtain rfl : t = ⟨id, decl⟩ :=
    h.enlarges.describes'.type_ext ht h.mem_types (congrArg TypeDecl.id hdecl)
  have hnew : Surface.classOf? config.capabilities p'.graph ⟨id, decl⟩ = some c := by
    rw [Surface.classOf?, hc]
    rfl
  refine ⟨p', c, _, _, hbuild', generate_of_build hbuild currentDir config,
    generate_of_build hbuild' currentDir config, (Surface.of_classOf? hnew).2,
    h.classes hnew, fun old hold => h.stub hnew hold, Project.stubs_generate _, ?_, ?_⟩
  · refine (Project.stubs_generate _).trans (((h.classes hnew).map _).trans ?_)
    refine List.Perm.cons _ ((List.Perm.of_eq ?_).trans (Project.stubs_generate _).symm)
    exact List.map_congr_left fun old hold => h.stub hnew hold
  · intro d hd
    have hfindings := (h.extends_between.findings currentDir config).count_eq d
    rw [List.count_append] at hfindings
    have hcount := Project.count_diagnostics h.extends_between.tables currentDir config hd
    have hcount' := Project.count_diagnostics h.extends_between.tables' currentDir config hd
    show List.count d (Surface.problems p config.capabilities ++ _)
      ≤ List.count d (Surface.problems p' config.capabilities ++ _)
    omega

/-! ## A tool below a stray type

`Tool` comes after the types of `Stray`. It is below `Stray`, has the
simple name of `Stray`, declares an `f` as `Shared` and `Special` do, and
its capability is a name that did not occur before. -/

namespace Stray

def tool : TypeDecl :=
  { id := "a.Tool", name := "Stray", superclass := some "a.Stray",
    interfaces := ["a.Shared", "dan200.computercraft.api.lua.ILuaAPI"],
    source := ⟨"src/C.java", 1, 0⟩,
    doc := some { tags := [.blockTag "cc.module" [.text "tool"]] },
    methods := [{ name := "f", marker := some {}, source := ⟨"src/C.java", 3, 0⟩ }] }

def withTool : Sample where
  models := sample.models ++ [{ types := [tool] }]

def toolClass : ClassInfo := ClassInfo.ofModule ⟨4, tool⟩ .api false "tool"

theorem tool_below_api : withTool.program.graph.isSubtypeOfName 4
    "dan200.computercraft.api.lua.ILuaAPI" = true := by
  have hlookup : withTool.program.graph.lookup "dan200.computercraft.api.lua.ILuaAPI"
      = some 5 := rfl
  have hsupertypes : withTool.program.graph.supertypes 4 = [3, 0, 5] := rfl
  rw [TypeGraph.isSubtypeOfName, hlookup]
  exact TypeGraph.isSubtype_iff.mpr (.inr (.single (by simp [hsupertypes])))

theorem tool_documented :
    ClassInfo.ofType {} withTool.program.graph ⟨4, tool⟩ = .ok (some toolClass) := by
  have hclass : Classification.of {} withTool.program.graph 4 = .api := by
    rw [Classification.of, if_pos tool_below_api]
  unfold ClassInfo.ofType
  simp only [hclass]
  rfl

theorem tool_unmentioned :
    ∀ old ∈ sample.models.flatMap (·.types), tool.id ∉ old.mentioned := by decide

/-- `Drive` keeps its stub, and one stub is added. -/
theorem tool_leaves_drive :
    Program.build sample.models = .ok sample.program ∧
      (∀ old ∈ sample.models.flatMap (·.types), tool.id ∉ old.mentioned) ∧
      ClassInfo.ofType {} withTool.program.graph ⟨4, tool⟩ = .ok (some toolClass) ∧
      withTool.project.stub Adoption.driveClass = sample.project.stub Adoption.driveClass ∧
      ∃ generated generated', generate "/" {} sample.models = .ok generated ∧
        generate "/" {} withTool.models = .ok generated' ∧
        generated'.stubs.length = generated.stubs.length + 1 := by
  have hmodels : withTool.models.flatMap (·.types)
      = sample.models.flatMap (·.types) ++ [tool] := rfl
  obtain ⟨p', c, generated, generated', hbuild', hgenerate, hgenerate', _, _, hstubs, _, hadded,
      _⟩ :=
    unmentioned_type_is_local sample.build_models hmodels tool_unmentioned "/" {} fun p' hp' => by
      cases withTool.build_models.symm.trans hp'
      exact ⟨⟨4, tool⟩, List.mem_append_right _ (List.mem_singleton_self _), rfl, toolClass,
        tool_documented⟩
  cases withTool.build_models.symm.trans hbuild'
  exact ⟨sample.build_models, tool_unmentioned, tool_documented,
    hstubs Adoption.driveClass sample.documented_mem, generated, generated', hgenerate, hgenerate',
    by simpa using hadded.length_eq⟩

end Stray

end ApiStubs
