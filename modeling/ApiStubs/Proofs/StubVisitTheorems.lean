/-
ApiStubs.Proofs.StubVisitTheorems — the nodes that stubs are made of.

Composing a function renders its comment and then, one by one, those of
the captured descriptions that are written next to a type. Both are
rendered for the METHOD ITSELF: a description that was captured from an
inherited comment has lost the method it came from. `functionVisits` lists
the nodes met in both phases, `classVisits` those met for a header. Every
problem that is about a node is the problem of one of them
(`exists_visit_of_compose`, `exists_visit_of_header`).
-/
import ApiStubs.Proofs.RenderInduction
import ApiStubs.Stub.Document

namespace ApiStubs

/-! ## Captured descriptions -/

namespace Visit

/-- A block tag captures flags only. -/
theorem captures_blockTag (name : String) :
    (((Text.after vendorNamespace name).map tagCaptures).getD {}).params = [] ∧
      (((Text.after vendorNamespace name).map tagCaptures).getD {}).returns = none := by
  cases Text.after vendorNamespace name <;> exact ⟨rfl, rfl⟩

theorem exists_of_mem_params {name : String} {description : List DocNode} {vs : List Visit}
    (h : (name, description) ∈ (total vs).captures.params) :
    ∃ v ∈ vs, v.node = .param name description := by
  induction vs with
  | nil => cases h
  | cons v vs ih =>
    rcases List.mem_append.mp h with h | h
    · refine ⟨v, List.mem_cons_self, ?_⟩
      simp only [own, captures] at h
      split at h
      · next name' description' hnode =>
        obtain ⟨rfl, rfl⟩ := Prod.mk.inj (List.mem_singleton.mp h)
        exact hnode
      · cases h
      · simp [(captures_blockTag _).1] at h
      · cases h
    · obtain ⟨w, hw, hnode⟩ := ih h
      exact ⟨w, List.mem_cons_of_mem _ hw, hnode⟩

theorem exists_of_returns {description : List DocNode} {vs : List Visit}
    (h : (total vs).captures.returns = some description) :
    ∃ v ∈ vs, v.node = .returns description := by
  induction vs with
  | nil => cases h
  | cons v vs ih =>
    have hmerge : ((total vs).captures.returns <|> v.captures.returns) = some description := h
    cases hlater : (total vs).captures.returns with
    | some later =>
      obtain ⟨w, hw, hnode⟩ := ih (by simpa [hlater] using hmerge)
      exact ⟨w, List.mem_cons_of_mem _ hw, hnode⟩
    | none =>
      rw [hlater] at hmerge
      have hown : v.captures.returns = some description := hmerge
      refine ⟨v, List.mem_cons_self, ?_⟩
      simp only [captures] at hown
      split at hown
      · cases hown
      · next description' hnode =>
        cases hown
        exact hnode
      · simp [(captures_blockTag _).2] at hown
      · cases hown

end Visit

/-- Is the node a tag whose description is captured? -/
def DocNode.isCaptured : DocNode → Bool
  | .param _ _ => true
  | .returns _ => true
  | _ => false

/-- The captured descriptions that are written out for a method: those of
its parameters, then that of its result. -/
def describedNodes (captures : Captures) (decl : MethodDecl) (owner : Option ClassInfo) :
    List (List DocNode) :=
  (if captures.hasParam then []
    else ((visibleParams decl owner).filter (!·.type.isAny)).filterMap
      fun p => captures.param? p.name)
  ++ if captures.hasReturn || decl.returns.isVoid then [] else captures.returns.toList

theorem Captures.mem_params_of_param? {captures : Captures} {name : String}
    {description : List DocNode} (h : captures.param? name = some description) :
    (name, description) ∈ captures.params := by
  obtain ⟨⟨name', description'⟩, hfound, rfl⟩ := Option.map_eq_some_iff.mp h
  obtain rfl : name' = name := by simpa using List.find?_some hfound
  exact List.mem_reverse.mp (List.mem_of_find?_eq_some hfound)

/-! ## Functions and headers -/

/-- The comment of a declaration. -/
def Owner.doc : Owner → Option DocComment
  | .type decl => decl.doc
  | .method m => m.decl.doc

/-- The nodes of a declaration's comment. -/
def Owner.nodes (owner : Owner) : List DocNode :=
  (owner.doc.map (·.nodes)).getD []

/-- The rendered comment of a declaration; nothing if it has none. -/
def Owner.rendered (p : Program) (resolve : Target → Option String) (owner : Owner) : Rendered :=
  match owner.doc with
  | some doc => renderComment (owner.setting p resolve) doc
  | none => {}

theorem Owner.silent_rendered (p : Program) (resolve : Target → Option String) (owner : Owner) :
    (owner.rendered p resolve).silent = Visit.total (owner.visits p resolve owner.nodes) := by
  unfold Owner.rendered Owner.nodes
  cases owner.doc with
  | none => rfl
  | some doc => exact owner.silent_renderComment p resolve doc

theorem Owner.captures_rendered (p : Program) (resolve : Target → Option String)
    (owner : Owner) : (owner.rendered p resolve).captures
      = (Visit.total (owner.visits p resolve owner.nodes)).captures := by
  rw [← owner.silent_rendered p resolve]
  rfl

theorem Owner.problems_rendered (p : Program) (resolve : Target → Option String)
    (owner : Owner) : (owner.rendered p resolve).problems
      = (owner.visits p resolve owner.nodes).flatMap (·.own.problems) := by
  rw [← Visit.problems_total, ← owner.silent_rendered p resolve]
  rfl

namespace Project

/-- The nodes met in rendering for a method that `owner` owns. -/
def methodVisits (project : Project) (owner : Option ClassInfo) (m : Method)
    (nodes : List DocNode) : List Visit :=
  (Owner.method m).visits project.program (project.resolver (owner.map (·.id))) nodes

/-- The nodes met in composing a function: those of its comment, then
those of the captured descriptions that are written out. -/
def functionVisits (project : Project) (owner : Option ClassInfo) (m : Method) : List Visit :=
  let comment := project.methodVisits owner m (Owner.method m).nodes
  comment ++ (describedNodes (Visit.total comment).captures m.decl owner).flatMap
    (project.methodVisits owner m)

/-- The nodes met in the documentation of a class. -/
def classVisits (project : Project) (c : ClassInfo) : List Visit :=
  (Owner.type c.decl).visits project.program (project.resolver (some c.id))
    (Owner.type c.decl).nodes

/-- A description that is written out is that of a tag in the comment. -/
theorem exists_captured {project : Project} {owner : Option ClassInfo} {m : Method}
    {description : List DocNode}
    (h : description ∈ describedNodes (Visit.total (project.methodVisits owner m
      (Owner.method m).nodes)).captures m.decl owner) :
    ∃ v ∈ project.methodVisits owner m (Owner.method m).nodes,
      (∃ name, v.node = .param name description) ∨ v.node = .returns description := by
  rcases List.mem_append.mp h with h | h
  · split at h
    · cases h
    · obtain ⟨param, _, hparam⟩ := List.mem_filterMap.mp h
      obtain ⟨v, hv, hnode⟩ := Visit.exists_of_mem_params (Captures.mem_params_of_param? hparam)
      exact ⟨v, hv, .inl ⟨_, hnode⟩⟩
  · split at h
    · cases h
    · obtain ⟨v, hv, hnode⟩ := Visit.exists_of_returns (Option.mem_toList.mp h)
      exact ⟨v, hv, .inr hnode⟩

end Project

/-! ## Problems about nodes -/

theorem node_typeProblems {subject : Subject} {t : TypeText} {d : Diagnostic}
    (h : d ∈ typeProblems subject t) : d.node = none := by
  obtain ⟨what, _, rfl⟩ := List.mem_map.mp h
  rfl

theorem node_returnWarnings {subject : Subject} {hasReturn : Bool} {type : ValueType}
    {d : Diagnostic} (h : d ∈ returnWarnings subject hasReturn type) : d.node = none := by
  unfold returnWarnings at h
  split at h
  · obtain rfl := List.mem_singleton.mp h
    rfl
  · split at h
    · obtain rfl := List.mem_singleton.mp h
      rfl
    · cases h

theorem Owner.exists_visit_of_description {p : Program} {resolve : Target → Option String}
    {owner : Owner} {described : Option (List DocNode)} {d : Diagnostic}
    (h : d ∈ (renderDescription (owner.setting p resolve) described).problems) :
    ∃ nodes, described = some nodes ∧ ∃ v ∈ owner.visits p resolve nodes, d ∈ v.own.problems := by
  cases described with
  | none => cases h
  | some nodes =>
    have hproblems : (renderNodes (owner.setting p resolve) nodes).problems
        = (owner.visits p resolve nodes).flatMap (·.own.problems) := by
      rw [← Visit.problems_total, ← owner.silent_renderNodes p resolve nodes]
      rfl
    have hd : d ∈ (renderNodes (owner.setting p resolve) nodes).problems := h
    rw [hproblems] at hd
    exact ⟨nodes, rfl, List.mem_flatMap.mp hd⟩

/-- A problem about a node that comes with the parameters comes from a
description that is written out. -/
theorem exists_visit_of_params {names : TypeNames} {p : Program}
    {resolve : Target → Option String} {m : Method} {captures : Captures}
    {owner : Option ClassInfo} {d : Diagnostic} {kind : String}
    (h : d ∈ (ParamsDoc.of names ((Owner.method m).setting p resolve) captures m.decl
      owner).problems) (hkind : d.node = some kind) :
    ∃ nodes ∈ describedNodes captures m.decl owner,
      ∃ v ∈ (Owner.method m).visits p resolve nodes, d ∈ v.own.problems := by
  unfold ParamsDoc.of at h
  split at h
  · split at h
    · obtain rfl := List.mem_singleton.mp h
      cases hkind
    · cases h
  · next hparam =>
    obtain ⟨doc, hdoc, h⟩ := List.mem_flatMap.mp h
    obtain ⟨param, hmem, rfl⟩ := List.mem_map.mp hdoc
    unfold ParamDoc.of at h
    split at h
    · obtain rfl := List.mem_singleton.mp h
      cases hkind
    · next hany =>
      rcases List.mem_append.mp h with h | h
      · rw [node_typeProblems h] at hkind
        cases hkind
      · obtain ⟨nodes, hnodes, hvisit⟩ := Owner.exists_visit_of_description h
        refine ⟨nodes, List.mem_append_left _ ?_, hvisit⟩
        rw [if_neg hparam]
        exact List.mem_filterMap.mpr
          ⟨param, List.mem_filter.mpr ⟨hmem, by simpa using hany⟩, hnodes⟩

/-- The same for the result. -/
theorem exists_visit_of_returns {names : TypeNames} {p : Program}
    {resolve : Target → Option String} {m : Method} {captures : Captures}
    {owner : Option ClassInfo} {d : Diagnostic} {kind : String}
    (h : d ∈ (returnLine names ((Owner.method m).setting p resolve) captures m.decl).problems)
    (hkind : d.node = some kind) :
    ∃ nodes ∈ describedNodes captures m.decl owner,
      ∃ v ∈ (Owner.method m).visits p resolve nodes, d ∈ v.own.problems := by
  unfold returnLine at h
  split at h
  · cases h
  · next hreturn =>
    rcases List.mem_append.mp h with h | h
    · rw [node_typeProblems h] at hkind
      cases hkind
    · obtain ⟨nodes, hnodes, hvisit⟩ := Owner.exists_visit_of_description h
      refine ⟨nodes, List.mem_append_right _ ?_, hvisit⟩
      rw [if_neg hreturn, hnodes]
      exact List.mem_singleton_self nodes

/-- **Problems about nodes of functions are problems of visited nodes.** -/
theorem Project.exists_visit_of_compose {project : Project} {owner : Option ClassInfo}
    {f : Callable} {d : Diagnostic} {kind : String}
    (h : d ∈ (FunctionStub.compose project owner f).problems) (hkind : d.node = some kind) :
    ∃ v ∈ project.functionVisits owner f.method, d ∈ v.own.problems := by
  have hcaptures := (Owner.method f.method).captures_rendered project.program
    (project.resolver (owner.map (·.id)))
  have hdescribed : ∀ nodes ∈ describedNodes ((Owner.method f.method).rendered project.program
      (project.resolver (owner.map (·.id)))).captures f.method.decl owner,
      ∀ v ∈ project.methodVisits owner f.method nodes,
        v ∈ project.functionVisits owner f.method := by
    intro nodes hnodes v hv
    rw [hcaptures] at hnodes
    exact List.mem_append_right _ (List.mem_flatMap.mpr ⟨nodes, hnodes, hv⟩)
  rcases List.mem_append.mp h with h | h
  · rcases List.mem_append.mp h with h | h
    · rcases List.mem_append.mp h with h | h
      · have hd : d ∈ ((Owner.method f.method).rendered project.program
            (project.resolver (owner.map (·.id)))).problems := h
        rw [Owner.problems_rendered] at hd
        obtain ⟨v, hv, hd⟩ := List.mem_flatMap.mp hd
        exact ⟨v, List.mem_append_left _ hv, hd⟩
      · obtain ⟨nodes, hnodes, v, hv, hd⟩ := exists_visit_of_params h hkind
        exact ⟨v, hdescribed nodes hnodes v hv, hd⟩
    · rw [node_returnWarnings h] at hkind
      cases hkind
  · obtain ⟨nodes, hnodes, v, hv, hd⟩ := exists_visit_of_returns h hkind
    exact ⟨v, hdescribed nodes hnodes v hv, hd⟩

theorem Project.exists_visit_of_header {project : Project} {c : ClassInfo} {d : Diagnostic}
    (h : d ∈ (StubDocument.classDocumentation project c).problems) :
    ∃ v ∈ project.classVisits c, d ∈ v.own.problems := by
  have hd : d ∈ ((Owner.type c.decl).rendered project.program
      (project.resolver (some c.id))).problems := h
  rw [Owner.problems_rendered] at hd
  exact List.mem_flatMap.mp hd

end ApiStubs
