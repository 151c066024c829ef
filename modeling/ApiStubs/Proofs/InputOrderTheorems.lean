/-
ApiStubs.Proofs.InputOrderTheorems — the order of the input shows only
through ties.

Types and methods are numbered as they are declared, so another order of
the same declarations, or another distribution over files, gives other
numbers everywhere. They are an enlargement of each other by nothing, so
`Enlarges.extends_between` applies, and what is left of the numbers is the
last resort of the order in a stub, between types of the same height and
the same simple name. Without such types the stubs and the reports are the
same (`generate_perm`).
-/
import ApiStubs.Proofs.EnlargementTheorems

namespace ApiStubs

/-! ## Ties -/

/-- Does a type declare functions that scripts can call? -/
def TypeDecl.declaresFunctions (decl : TypeDecl) : Bool :=
  decl.methods.any (·.marker.isSome)

namespace Program

/-- No two types with functions have both the same height and the same
simple name. -/
def NoTies (p : Program) : Prop :=
  ∀ s ∈ p.types, ∀ t ∈ p.types,
    s.decl.declaresFunctions = true → t.decl.declaresFunctions = true →
    p.graph.height s.id = p.graph.height t.id → s.decl.name = t.decl.name → s.id = t.id

theorem Describes.simpleName {p : Program} {decls : List TypeDecl} (h : p.Describes decls)
    {t : DeclaredType} (ht : t ∈ p.types) : p.simpleName t.id = t.decl.name := by
  simp only [Program.simpleName, h.type?_type ht]

/-- Without ties there is no order among them to keep. -/
theorem NoTies.keepsTies {p : Program} {decls : List TypeDecl} (hties : p.NoTies)
    (h : p.Describes decls) (r : Renaming) : r.KeepsTies p := by
  intro m hm n hn hmarked hmarked' hheight hname hlt
  obtain ⟨s, hs, hsm, hdecl⟩ := h.exists_owner hm
  obtain ⟨t, ht, htn, hdecl'⟩ := h.exists_owner hn
  rw [← hsm, ← htn] at hheight hname hlt
  rw [h.simpleName hs, h.simpleName ht] at hname
  have hsame : s.id = t.id :=
    hties s hs t ht (List.any_eq_true.mpr ⟨m.decl, hdecl, hmarked⟩)
      (List.any_eq_true.mpr ⟨n.decl, hdecl', hmarked'⟩) hheight hname
  rw [hsame] at hlt
  exact absurd hlt (Nat.lt_irrefl _)

/-! ## Other numbers -/

namespace Extends

variable {r : Renaming} {p p' : Program} {currentDir : String} {config : Config}

theorem callables_eq_map (h : p.Extends r p' [] []) :
    (Project.of currentDir config p').surface.callables.Perm
      ((Project.of currentDir config p).surface.callables.map (·.rename r)) := by
  have hcallables : (Surface.of p' config.capabilities).callables.Perm
      ((Surface.of p config.capabilities).callables.map (·.rename r) ++ []) := h.callables
  rwa [List.append_nil] at hcallables

/-- There are the same notes about functions without a stub. -/
theorem orphanNotes (h : p.Extends r p' [] []) :
    ((Project.of currentDir config p').orphans.map (Project.of currentDir config p').ownerNote).Perm
      ((Project.of currentDir config p).orphans.map (Project.of currentDir config p).ownerNote) := by
  let project := Project.of currentDir config p
  let project' := Project.of currentDir config p'
  have hstray : (project.surface.callables.map (·.rename r)).filter
      (fun f => project'.isStray f.method.owner)
        = (project.surface.callables.filter fun f => project.isStray f.method.owner).map
            (·.rename r) := by
    rw [List.filter_map]
    refine congrArg (List.map _) (List.filter_congr fun f hf => ?_)
    exact h.isStray currentDir config (h.owner_lt currentDir config hf)
  calc List.Perm (project'.orphans.map project'.ownerNote)
        (((project.surface.callables.map (·.rename r)).filter
          fun f => project'.isStray f.method.owner).map project'.ownerNote) :=
        ((List.mergeSort_perm _ _).trans (h.callables_eq_map.filter _)).map _
    _ = (project.surface.callables.filter fun f => project.isStray f.method.owner).map
          project.ownerNote := by
        rw [hstray, List.map_map]
        exact List.map_congr_left fun f hf =>
          h.ownerNote currentDir config (List.mem_of_mem_filter hf)
    List.Perm _ (project.orphans.map project.ownerNote) := ((List.mergeSort_perm _ _).symm).map _

/-- **A program under other numbers has the same stubs and the same
reports**, if the numbers keep ties in order. -/
theorem generate (h : p.Extends r p' [] []) (hties : r.KeepsTies p) (currentDir : String)
    (config : Config) :
    (Project.of currentDir config p').generate.stubs.Perm
        (Project.of currentDir config p).generate.stubs ∧
      (Surface.problems p' config.capabilities
          ++ (Project.of currentDir config p').generate.diagnostics).Perm
        (Surface.problems p config.capabilities
          ++ (Project.of currentDir config p).generate.diagnostics) := by
  let project := Project.of currentDir config p
  let project' := Project.of currentDir config p'
  constructor
  · have hstubs : (project.surface.classes.map (·.rename r)).map project'.stub
        = project.surface.classes.map project.stub := by
      rw [List.map_map]
      exact List.map_congr_left fun c hc => h.stub currentDir config hties hc nofun
    refine project'.stubs_generate.trans ?_
    refine ((h.classes_eq_map currentDir config).map project'.stub).trans ?_
    rw [hstubs]
    exact project.stubs_generate.symm
  · have hfindings := h.findings currentDir config
    refine (Project.diagnostics_perm h.tables' currentDir config).trans ?_
    refine List.Perm.trans ?_ (Project.diagnostics_perm h.tables currentDir config).symm
    exact (hfindings.trans (by simp [Project.findings])).append h.orphanNotes

end Extends

end Program

/-! ## Any order of the declarations -/

/-- **The order of the input shows only through ties.** Models with the
same declarations, in any order and over any files, have the same stubs
and the same reports, unless two types with functions tie. -/
theorem generate_perm {models models' : List Model}
    (hperm : (models.flatMap (·.types)).Perm (models'.flatMap (·.types)))
    (hdistinct : ((models.flatMap (·.types)).map (·.id)).Nodup)
    (hties : ∀ p, Program.build models = .ok p → p.NoTies) (currentDir : String)
    (config : Config) :
    ∃ generated generated', generate currentDir config models = .ok generated ∧
      generate currentDir config models' = .ok generated' ∧
      generated.stubs.Perm generated'.stubs ∧
      generated.diagnostics.Perm generated'.diagnostics := by
  have hdistinct' : ((models'.flatMap (·.types)).map (·.id)).Nodup :=
    (hperm.map _).nodup_iff.mp hdistinct
  obtain ⟨p, hbuild, hp⟩ := Program.describes_build hdistinct
  obtain ⟨p', hbuild', hp'⟩ := Program.describes_build hdistinct'
  have henlarges : p.Enlarges p' _ _ [] :=
    ⟨hp, hp', by simpa using hperm.symm, fun _ _ => List.forall_mem_nil _⟩
  have hextends : p.Extends (Renaming.between p p') p' [] [] := by
    simpa [Program.isOneOf] using henlarges.extends_between
  obtain ⟨hstubs, hdiagnostics⟩ :=
    hextends.generate ((hties p hbuild).keepsTies hp _) currentDir config
  exact ⟨_, _, generate_of_build hbuild currentDir config,
    generate_of_build hbuild' currentDir config, hstubs.symm, hdiagnostics.symm⟩

namespace Adoption

/-- The types of the hierarchy in reverse, over two files. -/
def reversed : List Model := [{ types := [special] }, { types := [drive, shared] }]

theorem noTies : sample.program.NoTies := by
  intro s hs t ht _ _ _ hname
  have hnames : (sample.program.types.map (·.decl.name)).Nodup := by decide
  rw [List.inj_on_of_nodup_map hnames hs ht hname]

/-- Backwards, the inherited `f` has the number of the adopted one and the
other way round; the stub of `Drive` is the same. -/
theorem reversed_generate_perm :
    (sample.models.flatMap (·.types)).Perm (reversed.flatMap (·.types)) ∧
      Program.build sample.models = .ok sample.program ∧ sample.program.NoTies ∧
      ∃ generated generated', generate "/" {} sample.models = .ok generated ∧
        generate "/" {} reversed = .ok generated' ∧ generated.stubs.Perm generated'.stubs ∧
        generated.diagnostics.Perm generated'.diagnostics := by
  have hperm : (sample.models.flatMap (·.types)).Perm (reversed.flatMap (·.types)) :=
    (List.reverse_perm [shared, drive, special]).symm
  refine ⟨hperm, sample.build_models, noTies, generate_perm hperm (by decide) ?_ "/" {}⟩
  intro p hp
  cases sample.build_models.symm.trans hp
  exact noTies

end Adoption

end ApiStubs
