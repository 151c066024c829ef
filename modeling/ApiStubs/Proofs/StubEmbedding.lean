/-
ApiStubs.Proofs.StubEmbedding — stubs and reports within those of a larger
program.

`Program.Extends` finds each function and each header of a program again
in a larger one. What is left is order: the functions of a stub are
sorted by a key that ends in numbers, and numbers change. They decide
only between types of the same height and the same simple name, so it is
enough that new numbers keep the order there (`Renaming.KeepsTies`);
within one type the methods stay in the order of their declarations
anyway. Two lists that are strictly ordered by the same key and have the
same members are equal, so the stub of a class is the same
(`Extends.stub`).

What is reported is compared without its order. `Project.findings` is
everything that is reported about given types, classes and functions, and
`Extends.findings` splits the findings of the larger program into those of
the smaller one and those about what is beside it. Notes about functions
without a stub are apart, because more classes leave fewer of them.
-/
import ApiStubs.Proofs.StubLayerTheorems
import ApiStubs.Proofs.SurfaceEmbedding

namespace ApiStubs

/-! ## Findings -/

namespace Project

/-- Everything that is reported about some types, classes and functions,
apart from the notes about functions without a stub. -/
def findings (project : Project) (caps : Capabilities) (types : List DeclaredType)
    (classes : List ClassInfo) (callables : List Callable) : List Diagnostic :=
  types.filterMap (Surface.problemOf? caps project.program.graph)
    ++ callables.filterMap (project.surface.dispatchProblem? project.program)
    ++ callables.flatMap (fun f => (project.composed f).problems)
    ++ classes.flatMap fun c => (StubDocument.classDocumentation project c).problems

variable {project : Project} {caps : Capabilities} {types types' : List DeclaredType}
  {classes classes' : List ClassInfo} {callables callables' : List Callable}

theorem findings_perm (htypes : types.Perm types') (hclasses : classes.Perm classes')
    (hcallables : callables.Perm callables') :
    (project.findings caps types classes callables).Perm
      (project.findings caps types' classes' callables') :=
  (((htypes.filterMap _).append (hcallables.filterMap _)).append
    (hcallables.flatMap_right _)).append (hclasses.flatMap_right _)

/-- Two lists, each with one at its end. -/
theorem perm_append_append {α : Type} (as bs cs ds : List α) :
    (as ++ bs ++ (cs ++ ds)).Perm (as ++ cs ++ (bs ++ ds)) := by
  rw [List.append_assoc, List.append_assoc]
  refine List.Perm.append_left as ?_
  rw [← List.append_assoc, ← List.append_assoc]
  exact List.perm_append_comm.append_right ds

theorem findings_append :
    (project.findings caps (types ++ types') (classes ++ classes') (callables ++ callables')).Perm
      (project.findings caps types classes callables
        ++ project.findings caps types' classes' callables') := by
  simp only [findings, List.filterMap_append, List.flatMap_append]
  refine List.Perm.trans ?_ (perm_append_append _ _ _ _)
  refine List.Perm.append_right _ (List.Perm.trans ?_ (perm_append_append _ _ _ _))
  exact List.Perm.append_right _ (perm_append_append _ _ _ _)

/-- Every function is in the group of the type that declares it. -/
theorem Numbered.flatMap_callablesOf (numbered : project.Numbered) :
    ((FunctionGroup.declaringTypes project).flatMap
      (FunctionGroup.callablesOf project.surface)).Perm project.surface.callables := by
  have hnodup : project.surface.callables.Nodup := by
    refine numbered.increasing.imp ?_
    rintro a b hlt rfl
    exact Nat.lt_irrefl _ hlt
  refine (List.perm_ext_iff_of_nodup ?_ hnodup).mpr fun f => ?_
  · have hdistinct : (FunctionGroup.declaringTypes project).Nodup := List.nodup_range.filter _
    refine List.nodup_flatMap.mpr ⟨fun t _ => hnodup.filter _, hdistinct.imp fun hne => ?_⟩
    intro f hf hg
    have howner := of_decide_eq_true (List.mem_filter.mp hf).2
    exact hne (howner.symm.trans (of_decide_eq_true (List.mem_filter.mp hg).2))
  · rw [List.mem_flatMap]
    constructor
    · rintro ⟨t, _, hf⟩
      exact List.mem_of_mem_filter hf
    · intro hf
      exact ⟨_, FunctionGroup.mem_declaringTypes numbered hf, List.mem_filter.mpr ⟨hf, by simp⟩⟩

theorem groupProblems_eq (project : Project) :
    (FunctionGroup.all project).flatMap (·.problems)
      = ((FunctionGroup.declaringTypes project).flatMap
          (FunctionGroup.callablesOf project.surface)).flatMap
            fun f => (project.composed f).problems := by
  rw [FunctionGroup.all, List.flatMap_map, List.flatMap_assoc]
  refine List.flatMap_congr fun t _ => ?_
  rw [FunctionGroup.problems, FunctionGroup.functions_of, List.flatMap_map]

theorem Numbered.groupProblems_perm (numbered : project.Numbered) :
    ((FunctionGroup.all project).flatMap (·.problems)).Perm
      (project.surface.callables.flatMap fun f => (project.composed f).problems) := by
  rw [groupProblems_eq]
  exact numbered.flatMap_callablesOf.flatMap_right _

/-- What a run reports: its findings, and a note about each function
without a stub. -/
theorem diagnostics_perm {p : Program} (tables : p.Tables) (currentDir : String)
    (config : Config) :
    let project := Project.of currentDir config p
    (Surface.problems p config.capabilities ++ project.generate.diagnostics).Perm
      (project.findings config.capabilities p.types project.surface.classes
          project.surface.callables
        ++ project.orphans.map project.ownerNote) := by
  intro project
  have numbered : project.Numbered := Project.numbered_of tables currentDir config
  have hdocumentation : (Surface.documentation p config.capabilities).filterMap
      Surface.documentationProblem? = p.types.filterMap
        (Surface.problemOf? config.capabilities p.graph) := by
    rw [Surface.documentation, List.filterMap_map]
    rfl
  rw [Surface.problems, hdocumentation, diagnostics_generate, numbered.orphanNotes_eq]
  simp only [findings, ← List.append_assoc]
  refine List.Perm.append_right _ (List.Perm.append_right _ (List.Perm.append_left _ ?_))
  exact numbered.groupProblems_perm

end Project

/-! ## Ties -/

/-- New numbers keep the order of types with functions that have the same
height and the same simple name. -/
def Renaming.KeepsTies (r : Renaming) (p : Program) : Prop :=
  ∀ m ∈ p.methods, ∀ n ∈ p.methods, m.decl.marker.isSome = true → n.decl.marker.isSome = true →
    p.graph.height m.owner = p.graph.height n.owner →
    p.simpleName m.owner = p.simpleName n.owner →
    m.owner < n.owner → r.type m.owner < r.type n.owner

theorem Renaming.keepsTies_refl (p : Program) : Renaming.refl.KeepsTies p :=
  fun _ _ _ _ _ _ _ _ hlt => hlt

theorem Project.marker_of_callable {p : Program} {currentDir : String} {config : Config}
    {f : Callable} (hf : f ∈ (Project.of currentDir config p).surface.callables) :
    f.method.decl.marker.isSome = true := by
  obtain ⟨m, _, hmf⟩ := Project.mem_callables.mp hf
  obtain ⟨marker, hmarker, _⟩ := Option.map_eq_some_iff.mp hmf
  rw [Callable.method_of_ofMethod? hmf, hmarker]
  rfl

theorem Callable.firstVersions_map_rename (r : Renaming) (fs : List Callable) :
    Callable.firstVersions (fs.map (·.rename r))
      = (Callable.firstVersions fs).map (·.rename r) := by
  induction fs using List.reverseRecOn with
  | nil => rfl
  | append_singleton fs f ih =>
    have hany : (fs.map (·.rename r)).any (·.overrides (f.rename r))
        = fs.any (·.overrides f) := by
      rw [List.any_map]
      rfl
    rw [List.map_append, List.map_singleton, firstVersions_concat, firstVersions_concat, ih, hany,
      List.map_append]
    cases fs.any (·.overrides f) <;> rfl

namespace Program.Extends

variable {r : Renaming} {p p' : Program} {types : List DeclaredType} {methods : List Method}
  {c : ClassInfo} {f g : Callable} {id : TypeId}

theorem simpleName (h : p.Extends r p' types methods) (hid : id < p.graph.size) :
    p'.simpleName (r.type id) = p.simpleName id := by
  simp only [Program.simpleName, h.embeds.type? id hid]

/-- Methods of one type stay in their order. -/
theorem method_lt (h : p.Extends r p' types methods) {m n : Method} (hm : m ∈ p.methods)
    (hn : n ∈ p.methods) (howner : m.owner = n.owner) (hlt : m.id < n.id) :
    r.method m.id < r.method n.id := by
  have hincreasing := h.tables.methodsOf_increasing m.owner
  have hrenamed : ((p.methodsOf m.owner).map (·.rename r)).Pairwise fun a b => a.id < b.id := by
    rw [← h.embeds.methodsOf _ (h.embeds.owner_lt m hm)]
    exact h.tables'.methodsOf_increasing _
  -- Both orders are those of the places in the list.
  obtain ⟨i, hi, hmi⟩ := List.getElem_of_mem (mem_methodsOf.mpr ⟨hm, rfl⟩)
  obtain ⟨j, hj, hnj⟩ := List.getElem_of_mem (mem_methodsOf.mpr ⟨hn, howner.symm⟩)
  have hij : i < j := by
    rcases Nat.lt_trichotomy i j with hij | rfl | hji
    · exact hij
    · rw [hmi.symm.trans hnj] at hlt
      exact absurd hlt (Nat.lt_irrefl _)
    · have hback := List.pairwise_iff_getElem.mp hincreasing j i hj hi hji
      rw [hmi, hnj] at hback
      exact absurd hback (Nat.lt_asymm hlt)
  have hkept := List.pairwise_iff_getElem.mp (List.pairwise_map.mp hrenamed) i j hi hj hij
  rw [hmi, hnj] at hkept
  exact hkept

variable (currentDir : String) (config : Config)

/-! ## Order -/

theorem applies (h : p.Extends r p' types methods)
    (hc : c ∈ (Project.of currentDir config p).surface.classes) (hid : id < p.graph.size) :
    (Project.of currentDir config p').applies (c.rename r) (r.type id)
      = (Project.of currentDir config p).applies c id := by
  have hclass : c.id < p.graph.size := h.class_lt hc
  have howner : (((Surface.of p' config.capabilities).owner? p'.graph (r.type id)).map (·.id)
        = some (r.type c.id))
      ↔ ((Surface.of p config.capabilities).owner? p.graph id).map (·.id) = some c.id := by
    rw [h.owner? hid]
    cases hfound : (Surface.of p config.capabilities).owner? p.graph id with
    | none => simp
    | some other =>
      simp only [Option.map_some, Option.some.injEq]
      exact ⟨h.embeds.graph.injective _ (h.owner?_lt hfound) _ hclass, congrArg _⟩
  have hsub : p'.graph.isSubtype (r.type c.id) (r.type id) = p.graph.isSubtype c.id id :=
    h.embeds.graph.isSubtype hclass hid
  rw [Bool.eq_iff_iff, Project.applies_iff, Project.applies_iff]
  exact or_congr howner (Bool.eq_iff_iff.mp hsub)

theorem owner_lt (h : p.Extends r p' types methods)
    (hf : f ∈ (Project.of currentDir config p).surface.callables) :
    f.method.owner < p.graph.size :=
  h.embeds.owner_lt f.method (Project.method_mem_of_callable hf)

/-- Types that come before others in a stub still do. -/
theorem typeKey_lt (h : p.Extends r p' types methods)
    (hc : c ∈ (Project.of currentDir config p).surface.classes) {s t : TypeId}
    (hs : s < p.graph.size) (ht : t < p.graph.size)
    (htie : p.graph.height s = p.graph.height t → p.simpleName s = p.simpleName t →
      s < t → r.type s < r.type t)
    (hlt : (Project.of currentDir config p).typeKey c s
      < (Project.of currentDir config p).typeKey c t) :
    (Project.of currentDir config p').typeKey (c.rename r) (r.type s)
      < (Project.of currentDir config p').typeKey (c.rename r) (r.type t) := by
  have hown : ∀ id < p.graph.size, (r.type id != r.type c.id) = (id != c.id) := by
    intro id hid
    have hsame : r.type id = r.type c.id ↔ id = c.id :=
      ⟨h.embeds.graph.injective id hid c.id (h.class_lt hc), congrArg _⟩
    rw [Bool.eq_iff_iff]
    simp [hsame]
  simp only [Project.typeKey, Project.of, ClassInfo.rename, Prod.Lex.toLex_lt_toLex,
    OrderDual.toDual_inj] at hlt ⊢
  rw [hown s hs, hown t ht, h.embeds.graph.height hs, h.embeds.graph.height ht, h.simpleName hs,
    h.simpleName ht]
  rcases hlt with hfirst | ⟨hsame, hheight | ⟨hheight, hname | ⟨hname, hid⟩⟩⟩
  · exact .inl hfirst
  · exact .inr ⟨hsame, .inl hheight⟩
  · exact .inr ⟨hsame, .inr ⟨hheight, .inl hname⟩⟩
  · exact .inr ⟨hsame, .inr ⟨hheight, .inr ⟨hname, htie hheight hname hid⟩⟩⟩

/-- The places of two functions in a stub compare alike. -/
theorem functionKey_lt (h : p.Extends r p' types methods) (hties : r.KeepsTies p)
    (hc : c ∈ (Project.of currentDir config p).surface.classes)
    (hf : f ∈ (Project.of currentDir config p).surface.callables)
    (hg : g ∈ (Project.of currentDir config p).surface.callables)
    (hlt : (Project.of currentDir config p).functionKey c f
      < (Project.of currentDir config p).functionKey c g) :
    (Project.of currentDir config p').functionKey (c.rename r) (f.rename r)
      < (Project.of currentDir config p').functionKey (c.rename r) (g.rename r) := by
  have hfm := Project.method_mem_of_callable hf
  have hgm := Project.method_mem_of_callable hg
  rcases Prod.Lex.toLex_lt_toLex.mp hlt with htype | ⟨htype, hkey⟩
  · refine Prod.Lex.toLex_lt_toLex.mpr (.inl ?_)
    refine h.typeKey_lt currentDir config hc (h.owner_lt currentDir config hf)
      (h.owner_lt currentDir config hg) ?_ htype
    exact hties f.method hfm g.method hgm (Project.marker_of_callable hf)
      (Project.marker_of_callable hg)
  · have howner : f.method.owner = g.method.owner := Project.typeKey_injective _ c htype
    refine Prod.Lex.toLex_lt_toLex.mpr (.inr ⟨?_, ?_⟩)
    · exact congrArg (fun t => (Project.of currentDir config p').typeKey (c.rename r) (r.type t))
        howner
    · refine Prod.Lex.toLex_lt_toLex.mpr ((Prod.Lex.toLex_lt_toLex.mp hkey).imp id ?_)
      rintro ⟨hsource, hid⟩
      exact ⟨hsource, h.method_lt hfm hgm howner hid⟩

/-- The functions that apply to a class are the same, in the same order,
if nothing beside them applies to it. -/
theorem applicable (h : p.Extends r p' types methods) (hties : r.KeepsTies p)
    (hc : c ∈ (Project.of currentDir config p).surface.classes)
    (hbeside : ∀ m ∈ methods,
      (Project.of currentDir config p').applies (c.rename r) m.owner = false) :
    (Project.of currentDir config p').applicable (c.rename r)
      = ((Project.of currentDir config p).applicable c).map (·.rename r) := by
  have hsorted : (((Project.of currentDir config p).applicable c).map (·.rename r)).Pairwise
      fun a b => (Project.of currentDir config p').functionKey (c.rename r) a
        < (Project.of currentDir config p').functionKey (c.rename r) b := by
    refine List.pairwise_map.mpr
      ((Project.numbered_of h.tables currentDir config).pairwise_applicable.imp_of_mem ?_)
    intro f g hf hg hlt
    exact h.functionKey_lt currentDir config hties hc (Project.mem_applicable.mp hf).1
      (Project.mem_applicable.mp hg).1 hlt
  refine eq_of_pairwise_key _
    (Project.numbered_of h.tables' currentDir config).pairwise_applicable hsorted fun f' => ?_
  rw [Project.mem_applicable, List.mem_map]
  constructor
  · rintro ⟨hmem, happlies⟩
    rcases List.mem_append.mp (h.callables.mem_iff.mp hmem) with hmem | hmem
    · obtain ⟨f, hf, rfl⟩ := List.mem_map.mp hmem
      have hsame := h.applies currentDir config hc (h.owner_lt currentDir config hf)
      exact ⟨f, Project.mem_applicable.mpr ⟨hf, hsame.symm.trans happlies⟩, rfl⟩
    · obtain ⟨m, hm, hf⟩ := List.mem_filterMap.mp hmem
      rw [Callable.method_of_ofMethod? hf, hbeside m hm] at happlies
      cases happlies
  · rintro ⟨f, hf, rfl⟩
    obtain ⟨hf, happlies⟩ := Project.mem_applicable.mp hf
    have hsame := h.applies currentDir config hc (h.owner_lt currentDir config hf)
    refine ⟨h.callables.mem_iff.mpr (List.mem_append_left _ (List.mem_map_of_mem hf)), ?_⟩
    exact hsame.trans happlies

/-! ## Stubs -/

/-- **The stub of a class is the same.** -/
theorem stub (h : p.Extends r p' types methods) (hties : r.KeepsTies p)
    (hc : c ∈ (Project.of currentDir config p).surface.classes)
    (hbeside : ∀ m ∈ methods,
      (Project.of currentDir config p').applies (c.rename r) m.owner = false) :
    (Project.of currentDir config p').stub (c.rename r) = (Project.of currentDir config p).stub c := by
  have numbered := Project.numbered_of h.tables currentDir config
  have numbered' := Project.numbered_of h.tables' currentDir config
  have hentries : ((Project.of currentDir config p').stub (c.rename r)).entries
      = ((Project.of currentDir config p).stub c).entries := by
    rw [numbered'.entries_stub, numbered.entries_stub, numbered'.shown_eq,
      h.applicable currentDir config hties hc hbeside, Callable.firstVersions_map_rename,
      ← numbered.shown_eq, List.map_map]
    refine List.map_congr_left fun f hf => ?_
    simp only [Function.comp_apply, Project.entryIn,
      h.composed currentDir config (numbered.shown_subset hf)]
    rfl
  have hheader := h.headerOf currentDir config hc
  show StubDocument.mk _ _ (StubDocument.headerOf _ _)
    ((Project.of currentDir config p').stub (c.rename r)).entries = _
  rw [hentries, hheader]
  rfl

/-! ## Reports -/

theorem dispatchProblem? (h : p.Extends r p' types methods)
    (hf : f ∈ (Project.of currentDir config p).surface.callables) :
    (Project.of currentDir config p').surface.dispatchProblem? p' (f.rename r)
      = (Project.of currentDir config p).surface.dispatchProblem? p f := by
  let project := Project.of currentDir config p
  let project' := Project.of currentDir config p'
  have howner : project'.surface.owner? p'.graph (f.rename r).method.owner
      = (project.surface.owner? p.graph f.method.owner).map (·.rename r) :=
    h.owner? (h.owner_lt currentDir config hf)
  have hgeneric : Surface.isGeneric (project'.surface.owner? p'.graph (f.rename r).method.owner)
      = Surface.isGeneric (project.surface.owner? p.graph f.method.owner) := by
    rw [howner, isGeneric_rename]
  have hsubject : p'.methodSubject (f.rename r).method = p.methodSubject f.method :=
    h.embeds.methodSubject (Project.method_mem_of_callable hf)
  have hstatic : (f.rename r).method.decl.isStatic = f.method.decl.isStatic := rfl
  unfold Surface.dispatchProblem?
  rw [hsubject, hstatic, hgeneric]

theorem ownerNote (h : p.Extends r p' types methods)
    (hf : f ∈ (Project.of currentDir config p).surface.callables) :
    (Project.of currentDir config p').ownerNote (f.rename r)
      = (Project.of currentDir config p).ownerNote f := by
  have hsubject : p'.methodSubject (f.rename r).method = p.methodSubject f.method :=
    h.embeds.methodSubject (Project.method_mem_of_callable hf)
  show Diagnostic.mk _ (p'.methodSubject (f.rename r).method) _ _ = _
  rw [hsubject]
  rfl

/-- **What is reported is what was, and what is reported about the
declarations beside.** -/
theorem findings (h : p.Extends r p' types methods) :
    let project := Project.of currentDir config p
    let project' := Project.of currentDir config p'
    (project'.findings config.capabilities p'.types project'.surface.classes
        project'.surface.callables).Perm
      (project.findings config.capabilities p.types project.surface.classes
          project.surface.callables
        ++ project'.findings config.capabilities types
          (types.filterMap (Surface.classOf? config.capabilities p'.graph))
          (methods.filterMap Callable.ofMethod?)) := by
  intro project project'
  have hold : project'.findings config.capabilities (p.types.map (·.rename r))
      (project.surface.classes.map (·.rename r)) (project.surface.callables.map (·.rename r))
        = project.findings config.capabilities p.types project.surface.classes
            project.surface.callables := by
    simp only [Project.findings, List.filterMap_map, List.flatMap_map]
    congr 1
    · congr 1
      · congr 1
        · exact List.filterMap_congr fun t ht => h.problemOf? (h.embeds.type_lt t ht)
        · exact List.filterMap_congr fun f hf => h.dispatchProblem? currentDir config hf
      · refine List.flatMap_congr fun f hf => ?_
        rw [h.composed currentDir config hf]
    · exact List.flatMap_congr fun c hc =>
        congrArg Rendered.problems (h.classDocumentation currentDir config hc)
  rw [← hold]
  exact (Project.findings_perm h.types h.classes h.callables).trans Project.findings_append

/-! ## Nothing beside -/

theorem classes_eq_map (h : p.Extends r p' [] []) :
    (Project.of currentDir config p').surface.classes.Perm
      ((Project.of currentDir config p).surface.classes.map (·.rename r)) := by
  have hclasses : (Surface.of p' config.capabilities).classes.Perm
      ((Surface.of p config.capabilities).classes.map (·.rename r) ++ []) := h.classes
  rwa [List.append_nil] at hclasses

theorem isStray (h : p.Extends r p' [] []) {id : TypeId} (hid : id < p.graph.size) :
    (Project.of currentDir config p').isStray (r.type id)
      = (Project.of currentDir config p).isStray id := by
  rw [Bool.eq_iff_iff, Project.isStray_iff, Project.isStray_iff]
  constructor
  · intro hstray c hc
    rw [← h.applies currentDir config hc hid]
    exact hstray _ ((h.classes_eq_map currentDir config).mem_iff.mpr (List.mem_map_of_mem hc))
  · intro hstray c' hc'
    obtain ⟨c, hc, rfl⟩ := List.mem_map.mp ((h.classes_eq_map currentDir config).mem_iff.mp hc')
    rw [h.applies currentDir config hc hid]
    exact hstray c hc

end Program.Extends

end ApiStubs
