/-
ApiStubs.Proofs.BracketTheorems — comment blocks that close early.

The comment of a class or a function stands in a block that ends at the
first `]]`. Besides rendered documentation it has type expressions, names
and the place of the source in it, and these bring no two brackets
together. `block_closes_early_iff` has the exact condition under which a
block closes before its end: a link whose label ends with a bracket was
met in its documentation.

The names of documented classes come from module tags and may have
brackets; the condition on them is that they have none at either end and
no two in a row.
-/
import ApiStubs.Proofs.AttributionTheorems
import ApiStubs.Proofs.BracketRender
import ApiStubs.Proofs.ReferenceTheorems

namespace ApiStubs

open Text Fragment

/-! ## Names -/

/-- Nothing that stubs show has a closing bracket, but for the names of
documented classes, which may have some that stand apart. -/
structure Project.Plain (project : Project) : Prop where
  currentDir : Bracketless project.currentDir
  program : project.program.Plain
  functions : ∀ f ∈ project.surface.callables,
    f.method ∈ project.program.methods ∧ Bracketless f.name
  classes : ∀ c ∈ project.surface.classes, ∀ s ∈ c.decl.strings, Bracketless s
  kinds : ∀ c ∈ project.surface.classes, ∀ kind ∈ c.kind, Bracketless kind
  names : ∀ c ∈ project.surface.classes, Tame c.name
  moduleNames : ∀ c ∈ project.surface.classes, ¬ Closing c.moduleName
  typeNames : ∀ c ∈ project.surface.classes, ∀ name ∈ c.typeName, ¬ Closing name

/-- Whatever stands before it, the place of the source ends its line. -/
theorem last?_sourceTag (project : Project) (s : String) (pos : SourcePos) :
    last? (s ++ project.sourceTag pos) = some '\n' := by
  unfold Project.sourceTag
  rw [← String.append_assoc]
  exact last?_line _

namespace Project.Plain

variable {project : Project}

theorem tame_referenceName (plain : project.Plain) {c : ClassInfo}
    (hc : c ∈ project.surface.classes) : Tame c.referenceName := by
  unfold ClassInfo.referenceName
  cases hkind : c.kind with
  | none => exact plain.names c hc
  | some kind =>
    have hplain : Bracketless kind := plain.kinds c hc kind hkind
    exact (hplain.append (by decide)).tame.append (plain.names c hc)

theorem tame_typeNames (plain : project.Plain) :
    (project.surface.typeNames project.program).Tame := by
  intro id name hname
  obtain ⟨number, _, hname⟩ := Option.bind_eq_some_iff.mp hname
  obtain ⟨c, hc, hname⟩ := Option.bind_eq_some_iff.mp hname
  cases hname
  exact plain.tame_referenceName (List.mem_of_find?_eq_some hc)

theorem tame_resolver (plain : project.Plain) (context : Option TypeId) :
    NamesTamely (project.resolver context)
  | .type id, name, h => plain.tame_typeNames id name h
  | .method owner host, name, h => by
    obtain ⟨number, f, c, _, hf, hc, rfl⟩ := Surface.functionName?_eq_some h
    obtain ⟨m, _, hfound⟩ := List.exists_of_findSome?_eq_some hf
    have hname : Bracketless f.name :=
      (plain.functions f (Surface.mem_callables_of_callable? hfound).1).2
    split
    · exact hname.tame
    · exact ((plain.tame_referenceName (Surface.mem_classes_of_ownerFrom hc)).append
        (by decide)).append hname.tame

theorem bracketless_sourceTag (plain : project.Plain) {pos : SourcePos}
    (h : Bracketless pos.file) : Bracketless (project.sourceTag pos) :=
  (((Bracketless.append (by decide)
    (Path.bracketless_fromRoot plain.currentDir h project.root)).append (by decide)).append
    (bracketless_repr pos.line)).append (by decide)

end Project.Plain

/-! ## Functions -/

theorem bracketless_displayName {name : String} (h : Bracketless name) :
    Bracketless (displayName name) := by
  unfold displayName
  cases hshort : (Text.before "Arg" name <|> Text.before "A" name).filter (!·.isEmpty) with
  | none => exact h
  | some short =>
    have hbefore := (Option.filter_eq_some_iff.mp hshort).1
    cases harg : Text.before "Arg" name with
    | some t =>
      rw [harg] at hbefore
      exact h.before (harg.trans hbefore)
    | none =>
      rw [harg] at hbefore
      exact h.before hbefore

section Descriptions

variable {p : Program} {resolve : Target → Option String} {names : TypeNames} {m : Method}
  {captures : Captures} (hp : p.Plain)
  (hresolve : NamesTamely resolve) (hnames : names.Tame)

include hp hresolve hnames

/-- The line of a parameter closes the block only in its description. -/
theorem closesWith_paramDoc {param : Param} (hparam : Bracketless param.name)
    (hcaptured : ∀ nodes ∈ captures.param? param.name, ∀ node ∈ nodes, node.Plain) :
    Text.ClosesWith (ParamDoc.of names ((Owner.method m).setting p resolve) captures param).line
      ((if param.type.isAny then none else captures.param? param.name).toList.flatMap
        ((Owner.method m).visits p resolve)) := by
  unfold ParamDoc.of
  split
  · exact Text.closesWith_empty
  · have hfront : Tame ((if param.type.isOptional then "@tparam[opt] " else "@tparam ")
        ++ (param.type.write names).text ++ " " ++ displayName param.name) := by
      refine ((Tame.append ?_ (ValueType.tame_write hnames param.type)).append (by decide)).append
        (bracketless_displayName hparam).tame
      split <;> decide
    exact ((Owner.method m).closesWith_description hp hresolve hcaptured).line hfront

theorem closesWith_paramDocs {params : List Param}
    (hparams : ∀ param ∈ params, Bracketless param.name)
    (hcaptured : ∀ name, ∀ nodes ∈ captures.param? name, ∀ node ∈ nodes, node.Plain) :
    Text.ClosesWith
      (concat ((params.map (ParamDoc.of names ((Owner.method m).setting p resolve)
        captures)).map (·.line)))
      (((params.filter (!·.type.isAny)).filterMap fun param =>
        captures.param? param.name).flatMap ((Owner.method m).visits p resolve)) := by
  induction params with
  | nil => exact Text.closesWith_empty
  | cons param params ih =>
    obtain ⟨hparam, hparams⟩ := List.forall_mem_cons.mp hparams
    have hall := (closesWith_paramDoc hp hresolve hnames (m := m) hparam
      (hcaptured param.name)).append (ih hparams)
    simp only [List.map_cons, List.filter_cons]
    cases hany : param.type.isAny with
    | true => simpa [hany, concat] using hall
    | false =>
      cases hfound : captures.param? param.name with
      | none => simpa [hany, hfound, concat] using hall
      | some nodes => simpa [hany, hfound, concat] using hall

/-- The lines of the parameters close the block only in a description. -/
theorem closesWith_params (hparams : ∀ param ∈ m.decl.params, Bracketless param.name)
    (owner : Option ClassInfo)
    (hcaptured : ∀ name, ∀ nodes ∈ captures.param? name, ∀ node ∈ nodes, node.Plain) :
    Text.ClosesWith
      (ParamsDoc.of names ((Owner.method m).setting p resolve) captures m.decl owner).lines
      ((if captures.hasParam then []
        else ((visibleParams m.decl owner).filter (!·.type.isAny)).filterMap
          fun param => captures.param? param.name).flatMap
        ((Owner.method m).visits p resolve)) := by
  have hvisible : ∀ param ∈ visibleParams m.decl owner, Bracketless param.name := by
    intro param hparam
    have hpassed := List.mem_of_mem_filter hparam
    split at hpassed
    · exact hparams param (List.mem_of_mem_drop hpassed)
    · exact hparams param hpassed
  unfold ParamsDoc.of
  split
  · exact Text.closesWith_empty
  · exact closesWith_paramDocs hp hresolve hnames hvisible hcaptured

/-- The line of the result closes the block only in its description. -/
theorem closesWith_returnLine
    (hcaptured : ∀ nodes ∈ captures.returns, ∀ node ∈ nodes, node.Plain) :
    Text.ClosesWith (returnLine names ((Owner.method m).setting p resolve) captures m.decl).text
      ((if captures.hasReturn || m.decl.returns.isVoid then [] else
        captures.returns.toList).flatMap ((Owner.method m).visits p resolve)) := by
  unfold returnLine
  split
  · exact Text.closesWith_empty
  · have hfront : Tame ("@treturn " ++ (m.decl.returns.write names).text
        ++ if m.decl.nullable || m.decl.returns.isOptional then "|nil" else "") := by
      refine (Tame.append (by decide) (ValueType.tame_write hnames m.decl.returns)).append ?_
      split <;> decide
    exact ((Owner.method m).closesWith_description hp hresolve hcaptured).line hfront

end Descriptions

theorem Owner.forall_nodes {Q : DocNode → Prop} {owner : Owner}
    (h : ∀ doc, owner.doc = some doc → ∀ node ∈ doc.nodes, Q node) :
    ∀ node ∈ owner.nodes, Q node := by
  unfold Owner.nodes
  cases hdoc : owner.doc with
  | none => simp
  | some doc => exact h doc hdoc

/-- What stands in the comment block of a function. -/
def FunctionStub.inside (project : Project) (owner : Option ClassInfo) (f : Callable) : String :=
  let resolve := project.resolver (owner.map (·.id))
  let names := project.surface.typeNames project.program
  let s := (Owner.method f.method).setting project.program resolve
  let documentation := (Owner.method f.method).rendered project.program resolve
  documentation.text ++ "\n" ++ project.sourceTag f.method.decl.source
    ++ (ParamsDoc.of names s documentation.captures f.method.decl owner).lines
    ++ (returnLine names s documentation.captures f.method.decl).text

namespace Project.Plain

variable {project : Project}

theorem method_nodes (plain : project.Plain) {m : Method} (hm : m ∈ project.program.methods) :
    ∀ node ∈ (Owner.method m).nodes, node.Plain :=
  Owner.forall_nodes fun _ hdoc => plain.program.doc hm hdoc

/-- What is captured in the comment of a method is plain. -/
theorem captured (plain : project.Plain) (owner : Option ClassInfo) {m : Method}
    (hm : m ∈ project.program.methods) {v : Visit}
    (hv : v ∈ project.methodVisits owner m (Owner.method m).nodes)
    (hcaptured : v.node.isCaptured = true) : ∀ node ∈ v.node.children, node.Plain := by
  have bracketed := (Owner.method m).bracketed_setting plain.program
    (plain.tame_resolver (owner.map fun c => c.id))
  have hplain : v.node.Plain :=
    bracketed.plain_visitsAll (.method m) {} (plain.method_nodes hm) v hv
  refine hplain.inside ?_
  cases hnode : v.node <;> simp_all [DocNode.isCaptured, DocNode.isModuleTag]

theorem captured_param (plain : project.Plain) (owner : Option ClassInfo) {m : Method}
    (hm : m ∈ project.program.methods) {captures : Captures}
    (hcaptures : captures =
      (Visit.total (project.methodVisits owner m (Owner.method m).nodes)).captures) :
    ∀ name, ∀ nodes ∈ captures.param? name, ∀ node ∈ nodes, node.Plain := by
  intro name nodes hnodes
  subst hcaptures
  obtain ⟨v, hv, hnode⟩ := Visit.exists_of_mem_params (Captures.mem_params_of_param? hnodes)
  have hplain := plain.captured owner hm hv (by rw [hnode]; rfl)
  rwa [hnode] at hplain

theorem captured_returns (plain : project.Plain) (owner : Option ClassInfo) {m : Method}
    (hm : m ∈ project.program.methods) {captures : Captures}
    (hcaptures : captures =
      (Visit.total (project.methodVisits owner m (Owner.method m).nodes)).captures) :
    ∀ nodes ∈ captures.returns, ∀ node ∈ nodes, node.Plain := by
  intro nodes hnodes
  subst hcaptures
  obtain ⟨v, hv, hnode⟩ := Visit.exists_of_returns hnodes
  have hplain := plain.captured owner hm hv (by rw [hnode]; rfl)
  rwa [hnode] at hplain

/-- **The comment of a function closes its block exactly if a node met in
composing it does.** -/
theorem closesWith_function (plain : project.Plain) (owner : Option ClassInfo) {f : Callable}
    (hf : f ∈ project.surface.callables) :
    Text.ClosesWith (FunctionStub.inside project owner f)
      (project.functionVisits owner f.method) := by
  have hm := (plain.functions f hf).1
  have hstrings := plain.program f.method hm
  have hresolve := plain.tame_resolver (owner.map fun c => c.id)
  have hcaptures := (Owner.method f.method).captures_rendered project.program
    (project.resolver (owner.map fun c => c.id))
  have hcomment := (Owner.method f.method).closesWith_rendered plain.program hresolve
    (plain.method_nodes hm)
  have hsource : Bracketless (project.sourceTag f.method.decl.source) :=
    plain.bracketless_sourceTag (hstrings _ (by simp [MethodDecl.strings]))
  have hnames : ∀ param ∈ f.method.decl.params, Bracketless param.name := by
    intro param hparam
    refine hstrings param.name (List.mem_append_left _ (List.mem_append_right _ ?_))
    exact List.mem_map_of_mem hparam
  have hparams := closesWith_params plain.program hresolve plain.tame_typeNames
    (m := f.method) hnames owner (plain.captured_param owner hm hcaptures)
  have hresult := closesWith_returnLine plain.program hresolve plain.tame_typeNames
    (m := f.method) (plain.captured_returns owner hm hcaptures)
  have hall := (((hcomment.append (closesWith_nil (by decide : ClosesIff "\n" False))).append
    (closesWith_nil hsource.tame.closesIff)).append hparams).append hresult
  rw [List.append_nil, List.append_nil, List.append_assoc, ← List.flatMap_append] at hall
  rw [Project.functionVisits, Project.methodVisits, ← hcaptures]
  exact hall

end Project.Plain

/-! ## Headers -/

/-- What stands in the comment block of a header. -/
def StubDocument.headerInside (project : Project) (c : ClassInfo) : String :=
  (classDocumentation project c).text ++ project.sourceTag c.decl.source ++
    match c.typeName with
    | some name => "@type " ++ name ++ "\n"
    | none => moduleTag c ++ "\n"

namespace Project.Plain

variable {project : Project}

theorem not_closing_moduleTag (plain : project.Plain) {c : ClassInfo}
    (hc : c ∈ project.surface.classes) : ¬ Closing (StubDocument.moduleTag c ++ "\n") := by
  have hmodule := plain.moduleNames c hc
  unfold StubDocument.moduleTag
  cases hkind : c.kind with
  | none => exact not_closing_line (by decide) (by decide) hmodule
  | some kind =>
    have hopening : Bracketless ("@module[kind=" ++ kind) :=
      Bracketless.append (by decide) (plain.kinds c hc kind hkind)
    refine not_closing_line ?_ (last?_append_ne hopening.tame.last (by decide)) hmodule
    rw [closing_append]
    rintro (h | h | ⟨h, -⟩)
    · exact hopening.not_closing h
    · exact absurd h (by decide)
    · exact hopening.tame.last h

/-- **The header of a class closes its block exactly if a node met in the
documentation of the class does.** -/
theorem closing_header (plain : project.Plain) {c : ClassInfo}
    (hc : c ∈ project.surface.classes) :
    Closing (StubDocument.headerInside project c) ↔
      ∃ v ∈ project.classVisits c, v.closesEarly = true := by
  have hstrings := plain.classes c hc
  have hnodes : ∀ node ∈ (Owner.type c.decl).nodes, node.Plain := by
    refine Owner.forall_nodes fun doc hdoc => plain_of_stringsAll fun s hs => hstrings s ?_
    refine List.mem_append_left _ (List.mem_cons_of_mem _ ?_)
    have hdoc : c.decl.doc = some doc := hdoc
    simpa [hdoc, DocComment.strings] using hs
  have hcomment := (Owner.type c.decl).closesWith_rendered plain.program
    (plain.tame_resolver (some c.id)) hnodes
  have hsource : Bracketless (project.sourceTag c.decl.source) :=
    plain.bracketless_sourceTag (hstrings _ List.mem_cons_self)
  have hfront := hcomment.append (closesWith_nil hsource.tame.closesIff)
  rw [List.append_nil] at hfront
  have hlast := last?_sourceTag project ((Owner.type c.decl).rendered project.program
    (project.resolver (some c.id))).text c.decl.source
  have htail : ¬ Closing (match c.typeName with
      | some name => "@type " ++ name ++ "\n"
      | none => StubDocument.moduleTag c ++ "\n") := by
    cases htype : c.typeName with
    | some name => exact not_closing_line (by decide) (by decide) (plain.typeNames c hc name htype)
    | none => exact plain.not_closing_moduleTag hc
  refine Iff.trans ?_ hfront.closing
  unfold StubDocument.headerInside
  rw [closing_append]
  constructor
  · rintro (h | h | ⟨h, -⟩)
    · exact h
    · exact absurd h htail
    · exact absurd (hlast.symm.trans h) (by decide)
  · exact .inl

end Project.Plain

/-! ## Blocks -/

/-- The text has a comment block with this inside, and the mark that ends
the block stands at the beginning of a line. -/
structure Text.HasBlock (text inside : String) : Prop where
  written : ∃ front back, text = front ++ "--[[- " ++ inside ++ "]]\n" ++ back
  wholeLines : last? inside = some '\n'

theorem StubDocument.hasBlock_header (project : Project) (c : ClassInfo) :
    HasBlock (headerOf project c) (headerInside project c) where
  written := by
    have hend : "\n]]\n" = "\n" ++ "]]\n" := rfl
    unfold headerOf headerInside
    cases c.typeName with
    | some name =>
      refine ⟨"--- " ++ moduleTag c ++ "\n\n", "local " ++ name ++ " = \x7b\x7d\n", ?_⟩
      simp only [hend, String.append_assoc]
    | none =>
      refine ⟨"", "", ?_⟩
      simp only [hend, String.append_assoc, String.empty_append, String.append_empty]
  wholeLines := by
    unfold headerInside
    cases c.typeName with
    | some name => rw [← String.append_assoc]; exact last?_line _
    | none => rw [← String.append_assoc]; exact last?_line _

theorem wholeLines_params (names : TypeNames) (s : Setting) (captures : Captures)
    (decl : MethodDecl) (owner : Option ClassInfo) :
    WholeLines (ParamsDoc.of names s captures decl owner).lines := by
  unfold ParamsDoc.of
  split
  · nofun
  · refine wholeLines_concat fun line hline => ?_
    obtain ⟨doc, hdoc, rfl⟩ := List.mem_map.mp hline
    obtain ⟨param, _, rfl⟩ := List.mem_map.mp hdoc
    unfold ParamDoc.of
    split
    · nofun
    · exact wholeLines_line _

theorem wholeLines_returnLine (names : TypeNames) (s : Setting) (captures : Captures)
    (decl : MethodDecl) : WholeLines (returnLine names s captures decl).text := by
  unfold returnLine
  split
  · nofun
  · exact wholeLines_line _

theorem FunctionStub.hasBlock_entry (project : Project) (owner : Option ClassInfo)
    (f : Callable) (qualifier : String) :
    HasBlock ((compose project owner f).entry qualifier) (inside project owner f) where
  written := by
    have hcomment : (compose project owner f).comment
        = "--[[- " ++ inside project owner f ++ "]]\n" := by
      simp only [inside, ← String.append_assoc]
      rfl
    refine ⟨"\n", "function " ++ qualifier ++ f.name ++ "("
      ++ (compose project owner f).signature ++ ") end\n" ++ Text.concat (f.aliases.map fun other =>
        qualifier ++ other ++ " = " ++ (qualifier ++ f.name) ++ "\n"), ?_⟩
    unfold entry
    rw [hcomment]
    simp only [compose, String.append_assoc]
  wholeLines := by
    refine last?_append_of_wholeLines (last?_append_of_wholeLines ?_ (wholeLines_params _ _ _ _ _))
      (wholeLines_returnLine _ _ _ _)
    exact last?_sourceTag project _ f.method.decl.source

/-! ## Built projects -/

theorem ClassInfo.bracketless_kind {text name : String} {kind : Option String}
    (h : splitKind? text = some (kind, name)) : ∀ k ∈ kind, Bracketless k := by
  unfold splitKind? at h
  split at h
  · cases h
    nofun
  · obtain ⟨parts, hparts, heq⟩ := Option.map_eq_some_iff.mp h
    cases heq
    rintro _ ⟨⟩
    exact Bracketless.trim (cut_eq_some hparts).2

/-- The module and the local name of an auxiliary type are parts of its
name. -/
theorem ClassInfo.not_closing_splitName {name : String} (h : ¬ Closing name) :
    ¬ Closing (splitName name).1 ∧ ¬ Closing (splitName name).2 := by
  unfold splitName
  cases hcut : Text.cut '.' name with
  | none => exact ⟨h, h⟩
  | some parts =>
    have hparts := (cut_eq_some hcut).1
    refine ⟨fun hclosing => h (List.IsInfix.trans hclosing ?_),
      fun hclosing => h (List.IsInfix.trans hclosing ?_)⟩
    · rw [hparts]
      exact (List.prefix_append _ _).isInfix
    · rw [hparts]
      exact ((List.suffix_cons '.' _).trans (List.suffix_append _ _)).isInfix

theorem Callable.bracketless_name {m : Method} {f : Callable} (h : Callable.ofMethod? m = some f)
    (hm : ∀ s ∈ m.decl.strings, Bracketless s) : Bracketless f.name := by
  obtain ⟨marker, hmarker, rfl⟩ := Option.map_eq_some_iff.mp h
  split
  · next name aliases hnames =>
    exact hm name (by simp [MethodDecl.strings, hmarker, hnames])
  · exact hm m.decl.name (by simp [MethodDecl.strings])

theorem Project.plain_of_build {models : List Model} {p : Program}
    (hbuild : Program.build models = .ok p) {currentDir : String} (hdir : Bracketless currentDir)
    (config : Config) (hmodels : ∀ model ∈ models, ∀ s ∈ model.strings, Bracketless s)
    (hnames : ∀ c ∈ (Project.of currentDir config p).surface.classes, Tame c.name) :
    (Project.of currentDir config p).Plain := by
  have comesFrom := Program.comesFrom_of_build hbuild
  have htypes : ∀ decl ∈ models.flatMap (·.types), ∀ s ∈ decl.strings, Bracketless s := by
    intro decl hdecl s hs
    obtain ⟨model, hmodel, hdecl⟩ := List.mem_flatMap.mp hdecl
    exact hmodels model hmodel s (List.mem_flatMap.mpr ⟨decl, hdecl, hs⟩)
  have hprogram : p.Plain := by
    intro m hm s hs
    obtain ⟨decl, hdecl, hmem⟩ := comesFrom.methods m hm
    exact htypes decl hdecl s (List.mem_append_right _ (List.mem_flatMap.mpr ⟨_, hmem, hs⟩))
  refine ⟨hdir, hprogram, fun f hf => ?_, fun c hc => ?_, fun c hc => ?_, hnames, fun c hc => ?_,
    fun c hc => ?_⟩
  · obtain ⟨m, hm, hmf⟩ := Project.mem_callables.mp hf
    exact ⟨Project.method_mem_of_callable hf, Callable.bracketless_name hmf (hprogram m hm)⟩
  · obtain ⟨t, ht, hdecl⟩ := Surface.exists_declared hc
    rw [← hdecl]
    exact htypes t.decl (comesFrom.types t ht)
  · obtain ⟨t, _, _, ⟨classification, _, rfl⟩ | ⟨_, _, _, hsplit, rfl⟩⟩ := Surface.classes_cases hc
    · cases classification <;> rintro _ ⟨⟩ <;> decide
    · exact ClassInfo.bracketless_kind hsplit
  · have hname := (hnames c hc).not_closing
    obtain ⟨t, _, _, ⟨_, _, rfl⟩ | ⟨_, _, _, _, rfl⟩⟩ := Surface.classes_cases hc
    · exact hname
    · exact (ClassInfo.not_closing_splitName hname).1
  · have hname := (hnames c hc).not_closing
    obtain ⟨t, _, _, ⟨_, _, rfl⟩ | ⟨_, _, _, _, rfl⟩⟩ := Surface.classes_cases hc
    · nofun
    · rintro _ ⟨⟩
      exact (ClassInfo.not_closing_splitName hname).2

/-- **When a comment block closes early.** Without closing brackets in
what the models say, the block of a header or an entry has two of them in
a row exactly if a link was met whose label ends with one. -/
theorem block_closes_early_iff {models : List Model} {p : Program}
    (hbuild : Program.build models = .ok p) {currentDir : String} (hdir : Bracketless currentDir)
    (config : Config) (hmodels : ∀ model ∈ models, ∀ s ∈ model.strings, Bracketless s)
    (hnames : ∀ c ∈ (Project.of currentDir config p).surface.classes, Tame c.name) :
    let project := Project.of currentDir config p
    ∃ generated, generate currentDir config models = .ok generated ∧
      generated.stubs.Perm (project.surface.classes.map project.stub) ∧
      ∀ c ∈ project.surface.classes,
        HasBlock (project.stub c).header (StubDocument.headerInside project c) ∧
        (Closing (StubDocument.headerInside project c) ↔
          ∃ v ∈ project.classVisits c, v.closesEarly = true) ∧
        (project.stub c).entries = (project.shown c).map (project.entryIn c) ∧
        ∀ f ∈ project.shown c,
          let owner := project.surface.owner? project.program.graph f.method.owner
          HasBlock (project.entryIn c f) (FunctionStub.inside project owner f) ∧
          (Closing (FunctionStub.inside project owner f) ↔
            ∃ v ∈ project.functionVisits owner f.method, v.closesEarly = true) := by
  intro project
  have plain : project.Plain := Project.plain_of_build hbuild hdir config hmodels hnames
  have numbered : project.Numbered :=
    Project.numbered_of (Program.tables_of_build hbuild) currentDir config
  refine ⟨_, generate_of_build hbuild currentDir config, project.stubs_generate, fun c hc => ?_⟩
  refine ⟨StubDocument.hasBlock_header project c, plain.closing_header hc,
    numbered.entries_stub, ?_⟩
  intro f hf owner
  exact ⟨FunctionStub.hasBlock_entry project owner f (StubDocument.qualifier c),
    (plain.closesWith_function owner (numbered.shown_subset hf)).closing⟩

/-! ## A constant at the end of a label

`Os` refers to itself in a link with the label `nil`, which is a link in
brackets of its own. -/

namespace ConstantLabel

def os : TypeDecl :=
  { id := "a.Os", name := "Os", source := ⟨"src/A.java", 1, 0⟩,
    doc := some { body := [.link ⟨"Os", some (.type "a.Os")⟩ [.code "nil"]],
                  tags := [.blockTag "cc.module" [.text "os"]] } }

def osClass : ClassInfo := ClassInfo.ofAuxiliary ⟨0, os⟩ false none "os"

set_option maxRecDepth 2000 in
def sample : ClassSample where
  models := [{ types := [os] }]
  documented := osClass

theorem plain_models : ∀ model ∈ sample.models, ∀ s ∈ model.strings, Bracketless s := by decide

theorem link_closesEarly : ∃ v ∈ sample.project.classVisits osClass, v.closesEarly = true :=
  ⟨_, List.mem_cons_of_mem _ List.mem_cons_self, by decide⟩

/-- The header of `Os` closes its block in the middle of the link. -/
theorem header_closes_early :
    Program.build sample.models = .ok sample.program ∧
      (∀ model ∈ sample.models, ∀ s ∈ model.strings, Bracketless s) ∧
      ∃ generated, generate "/" {} sample.models = .ok generated ∧
        sample.project.stub osClass ∈ generated.stubs ∧
        HasBlock (sample.project.stub osClass).header
          (StubDocument.headerInside sample.project osClass) ∧
        Closing (StubDocument.headerInside sample.project osClass) := by
  have hclass : osClass ∈ sample.project.surface.classes := sample.documented_mem
  have hnames : ∀ c ∈ sample.project.surface.classes, Tame c.name := by
    rw [sample.classes_eq]
    exact List.forall_mem_singleton.mpr (by decide)
  obtain ⟨generated, hgenerate, hstubs, hall⟩ :=
    block_closes_early_iff sample.build_models (by decide : Bracketless "/") {} plain_models hnames
  obtain ⟨hblock, hiff, _⟩ := hall osClass hclass
  exact ⟨sample.build_models, plain_models, generated, hgenerate,
    hstubs.mem_iff.mpr (List.mem_map_of_mem hclass), hblock, hiff.mpr link_closesEarly⟩

end ConstantLabel

end ApiStubs
