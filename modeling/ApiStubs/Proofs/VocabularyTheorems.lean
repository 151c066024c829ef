/-
ApiStubs.Proofs.VocabularyTheorems — what rendering asks for.

Rendering asks for names of declarations, and only for those that the
documentation refers to and the types of parameters and results name.
Two settings that agree on these render the same (`AgreesOn.renderAll`,
`ValueType.write_congr`). What the documentation of a program refers to
(`Program.Refers`) covers the comments that are inherited and the
descriptions that are captured on the way.

Together with an embedding this carries the rendered documentation of a
program over to a larger one: `Program.Embeds.agreesOn_methodSetting` and
`Program.Embeds.rendered_method`.
-/
import ApiStubs.Proofs.AttributionTheorems
import ApiStubs.Proofs.EmbeddingTheorems

namespace ApiStubs

/-! ## References in documentation -/

/-- What the reference of a node points to. -/
def DocNode.target? : DocNode → Option Target
  | .reference r => r.target
  | .link r _ => r.target
  | _ => none

/-- Everything that some nodes refer to, at any depth, is in the
vocabulary. -/
def Within (V : Target → Prop) (nodes : List DocNode) : Prop :=
  ∀ node, Occurs node nodes → ∀ target, node.target? = some target → V target

theorem Occurs.subset {node : DocNode} {nodes more : List DocNode} (hsub : nodes ⊆ more)
    (h : Occurs node nodes) : Occurs node more := by
  cases h with
  | here hmem => exact .here (hsub hmem)
  | inside hmem hinside => exact .inside (hsub hmem) hinside

namespace Within

variable {V : Target → Prop} {nodes more : List DocNode} {node : DocNode}

theorem subset (h : Within V more) (hsub : nodes ⊆ more) : Within V nodes :=
  fun node hnode => h node (hnode.subset hsub)

theorem children (h : Within V nodes) (hmem : node ∈ nodes) : Within V node.children :=
  fun inner hinner => h inner (.inside hmem hinner)

theorem inside (h : Within V [node]) : Within V node.children :=
  h.children (List.mem_singleton_self node)

theorem target (h : Within V [node]) {target : Target} (htarget : node.target? = some target) :
    V target :=
  h node (.here (List.mem_singleton_self node)) target htarget

theorem head (h : Within V (node :: nodes)) : Within V [node] :=
  h.subset (by simp)

theorem tail (h : Within V (node :: nodes)) : Within V nodes :=
  h.subset (List.subset_cons_self node nodes)

end Within

/-! ## Settings that agree -/

namespace Setting

/-- The settings report for the same declaration, inherit the same and
give the same names to what is in the vocabulary. -/
structure AgreesOn (V : Target → Prop) (s s' : Setting) : Prop where
  subject : s.subject = s'.subject
  resolve : ∀ target, V target → s.resolve target = s'.resolve target
  inherited : s.inherited = s'.inherited

namespace AgreesOn

variable {V : Target → Prop} {s s' : Setting}

theorem report (h : AgreesOn V s s') (kind message : String) :
    s.report kind message = s'.report kind message := by
  simp only [Setting.report, h.subject]

theorem reference (h : AgreesOn V s s') (kind : String) {r : Reference}
    (hr : ∀ target, r.target = some target → V target) :
    s.reference kind r = s'.reference kind r := by
  unfold Setting.reference
  cases htarget : r.target with
  | none => simp only [h.report]
  | some target => simp only [h.resolve target (hr target htarget), h.report]

theorem blockTag (h : AgreesOn V s s') (name : String) (attached : Bool) (content : Fragment) :
    s.blockTag name attached content = s'.blockTag name attached content := by
  simp only [Setting.blockTag, h.report]

mutual

theorem render (h : AgreesOn V s s') : ∀ (place : Place) (node : DocNode), Within V [node] →
    node.render s place = node.render s' place
  | _, .text _, _ => by simp only [DocNode.render]
  | _, .erroneous _, _ => by simp only [DocNode.render]
  | _, .code _, _ => by simp only [DocNode.render]
  | _, .literal _, _ => by simp only [DocNode.render]
  | _, .reference r, hnode => by
    simp only [DocNode.render]
    exact h.reference _ fun _ => hnode.target
  | _, .link r [], hnode => by
    simp only [DocNode.render]
    rw [h.reference _ fun _ => hnode.target]
  | place, .link r (first :: rest), hnode => by
    have hlabel : Within V (first :: rest) := hnode.inside
    simp only [DocNode.render]
    rw [h.render place first hlabel.head, h.renderAll place rest hlabel.tail,
      h.reference _ fun _ => hnode.target]
  | place, .element name attributes children selfClosing, hnode => by
    simp only [DocNode.render]
    refine congrArg (element place name attributes selfClosing) (funext fun inner => ?_)
    exact h.renderAll inner children hnode.inside
  | _, .entity _, _ => by simp only [DocNode.render]
  | _, .inheritDoc, _ => by simp only [DocNode.render, h.inherited, h.report]
  | _, .hidden, _ => by simp only [DocNode.render]
  | _, .param _ _, _ => by simp only [DocNode.render]
  | _, .returns _, _ => by simp only [DocNode.render]
  | place, .throws description, hnode => by
    simp only [DocNode.render]
    rw [h.renderAll place description hnode.inside]
  | place, .deprecated body, hnode => by
    simp only [DocNode.render]
    rw [h.renderAll place body hnode.inside]
  | _, .see [], _ => by simp only [DocNode.render]
  | place, .see (first :: rest), hnode => by
    have hinside : Within V (first :: rest) := hnode.inside
    simp only [DocNode.render]
    rw [h.render place first hinside.head, h.renderAll place rest hinside.tail]
  | place, .blockTag name content, hnode => by
    simp only [DocNode.render]
    rw [h.blockTag, h.renderAll place content hnode.inside]
  | _, .unsupported, _ => by simp only [DocNode.render, h.report]

/-- **Settings that agree render the same.** -/
theorem renderAll (h : AgreesOn V s s') : ∀ (place : Place) (nodes : List DocNode),
    Within V nodes → ApiStubs.renderAll s place nodes = ApiStubs.renderAll s' place nodes
  | _, [], _ => by simp only [ApiStubs.renderAll]
  | place, node :: nodes, hnodes => by
    simp only [ApiStubs.renderAll]
    rw [h.render place node hnodes.head, h.renderAll place nodes hnodes.tail]

end

theorem comment (h : AgreesOn V s s') (place : Place) {doc : DocComment}
    (hdoc : Within V doc.nodes) : doc.render s place = doc.render s' place := by
  have hbody : Within V doc.body := hdoc.subset (List.subset_append_left _ _)
  have htags : Within V doc.tags := hdoc.subset (List.subset_append_right _ _)
  simp only [DocComment.render, h.renderAll place doc.body hbody,
    h.renderAll place doc.tags htags]

theorem renderComment (h : AgreesOn V s s') {doc : DocComment} (hdoc : Within V doc.nodes) :
    ApiStubs.renderComment s doc = ApiStubs.renderComment s' doc := by
  simp only [ApiStubs.renderComment, h.comment {} hdoc]

theorem renderDescription (h : AgreesOn V s s') {described : Option (List DocNode)}
    (hdescribed : ∀ nodes, described = some nodes → Within V nodes) :
    ApiStubs.renderDescription s described = ApiStubs.renderDescription s' described := by
  cases described with
  | none => rfl
  | some nodes =>
    simp only [ApiStubs.renderDescription, renderNodes, h.renderAll {} nodes (hdescribed nodes rfl)]

end AgreesOn

end Setting

/-! ## Documentation of a program -/

namespace Program

/-- The documentation of some declaration refers to the target. -/
def Refers (p : Program) (target : Target) : Prop :=
  ∃ owner, p.Declares owner ∧ ∃ node, owner.Has node ∧ node.target? = some target

variable {p : Program} {m : Method}

theorem declares_method (hm : m ∈ p.methods) : p.Declares (.method m) := hm

theorem Declares.within {owner : Owner} (h : p.Declares owner) : Within p.Refers owner.nodes :=
  fun node hnode _ htarget => ⟨owner, h, node, hnode, htarget⟩

theorem Declares.within_doc {owner : Owner} (h : p.Declares owner) {doc : DocComment}
    (hdoc : owner.doc = some doc) : Within p.Refers doc.nodes := by
  simpa [Owner.nodes, hdoc] using h.within

theorem Declares.within_children {owner : Owner} (h : p.Declares owner) {node : DocNode}
    (hnode : owner.Has node) : Within p.Refers node.children :=
  fun inner hinner _ htarget => ⟨owner, h, inner, hinner.trans hnode, htarget⟩

/-- A tag that is met in the comment of a method stands in that comment or
in one that is inherited. -/
theorem within_children_of_visit {resolve : Target → Option String} (hm : m ∈ p.methods)
    {v : Visit} (hv : v ∈ (Owner.method m).visits p resolve (Owner.method m).nodes) :
    Within p.Refers v.node.children := by
  rcases visits_owned hv with ⟨_, _, hoccurs⟩ | ⟨_, a, _, inherited⟩
  · exact (declares_method hm).within_children hoccurs
  · exact (declares_method inherited.declared).within_children inherited.has

/-- What the comment of a method captures refers to nothing new. -/
theorem within_captured {resolve : Target → Option String} (hm : m ∈ p.methods) :
    (∀ name nodes, ((Owner.method m).rendered p resolve).captures.param? name = some nodes →
      Within p.Refers nodes) ∧
    ∀ nodes, ((Owner.method m).rendered p resolve).captures.returns = some nodes →
      Within p.Refers nodes := by
  rw [Owner.captures_rendered]
  constructor
  · intro name nodes h
    obtain ⟨v, hv, hnode⟩ := Visit.exists_of_mem_params (Captures.mem_params_of_param? h)
    have hwithin := within_children_of_visit hm hv
    rwa [hnode] at hwithin
  · intro nodes h
    obtain ⟨v, hv, hnode⟩ := Visit.exists_of_returns h
    have hwithin := within_children_of_visit hm hv
    rwa [hnode] at hwithin

/-! ## Documentation in a larger program -/

section Rendered

variable {p' : Program} {resolve resolve' : Target → Option String}

theorem Declares.rendered_eq {owner owner' : Owner} (h : p.Declares owner)
    (hdoc : owner'.doc = owner.doc)
    (hagrees : Setting.AgreesOn p.Refers (owner.setting p resolve) (owner'.setting p' resolve')) :
    owner.rendered p resolve = owner'.rendered p' resolve' := by
  unfold Owner.rendered
  rw [hdoc]
  cases hfound : owner.doc with
  | none => dsimp only
  | some doc => exact hagrees.renderComment (h.within_doc hfound)

/-- The documentation of a type is the same: it inherits nothing. -/
theorem Declares.rendered_type {decl : TypeDecl} (h : p.Declares (.type decl))
    (hresolve : ∀ target, p.Refers target → resolve target = resolve' target) :
    (Owner.type decl).rendered p resolve = (Owner.type decl).rendered p' resolve' :=
  h.rendered_eq rfl ⟨rfl, hresolve, rfl⟩

end Rendered

namespace Embeds

variable {r : Renaming} {p' : Program} {resolve resolve' : Target → Option String}

/-- The settings of a method agree. By induction on the methods that are
not yet on the chain. -/
theorem agreesOn_methodSetting (h : p.Embeds r p')
    (hresolve : ∀ target, p.Refers target → resolve target = resolve' target) {m : Method}
    (hm : m ∈ p.methods) {chain : List MethodId}
    (hchain : ∀ id ∈ chain, ∃ other ∈ p.methods, other.id = id) :
    Setting.AgreesOn p.Refers (methodSetting p resolve m chain)
      (methodSetting p' resolve' (m.rename r) (chain.map r.method)) := by
  constructor
  · rw [subject_methodSetting, subject_methodSetting, h.methodSubject hm]
  · rw [resolve_methodSetting, resolve_methodSetting]
    exact hresolve
  · rw [inherited_methodSetting, inherited_methodSetting, h.inheritedDoc hm]
    cases hfound : p.inheritedDoc m with
    | none => rfl
    | some found =>
      obtain ⟨ancestor, doc⟩ := found
      have hancestor : ancestor ∈ p.methods := mem_methods_of_inheritedDoc hfound
      simp only [Option.map_some, Method.rename]
      by_cases hknown : ancestor.id ∈ chain
      · rw [if_pos hknown, if_pos ((h.mem_chain hancestor hchain).mpr hknown)]
      · rw [if_neg hknown, if_neg ((h.mem_chain hancestor hchain).not.mpr hknown)]
        have hfewer : p.unchained (ancestor.id :: chain) < p.unchained chain :=
          unchained_cons_lt hancestor hknown
        have hagrees := h.agreesOn_methodSetting hresolve hancestor
          (List.forall_mem_cons.mpr ⟨⟨ancestor, hancestor, rfl⟩, hchain⟩)
        refine congrArg some (funext fun place => hagrees.comment place ?_)
        exact (declares_method hancestor).within_doc (doc_of_inheritedDoc hfound)
termination_by p.unchained chain

theorem agreesOn_method (h : p.Embeds r p')
    (hresolve : ∀ target, p.Refers target → resolve target = resolve' target)
    (hm : m ∈ p.methods) :
    Setting.AgreesOn p.Refers ((Owner.method m).setting p resolve)
      ((Owner.method (m.rename r)).setting p' resolve') :=
  h.agreesOn_methodSetting hresolve hm (List.forall_mem_singleton.mpr ⟨m, hm, rfl⟩)

/-- **The documentation of a method is the same.** -/
theorem rendered_method (h : p.Embeds r p')
    (hresolve : ∀ target, p.Refers target → resolve target = resolve' target)
    (hm : m ∈ p.methods) :
    (Owner.method m).rendered p resolve = (Owner.method (m.rename r)).rendered p' resolve' :=
  (declares_method hm).rendered_eq rfl (h.agreesOn_method hresolve hm)

end Embeds

end Program

/-! ## Types of values -/

namespace ValueType

mutual

/-- The declared types that a type names. -/
def ids : ValueType → List String
  | .array element => element.ids
  | .map key value => argumentIds key ++ argumentIds value
  | .list element => argumentIds element
  | .optional inner => inner.ids
  | .coerced inner => inner.ids
  | .union alternatives => allIds alternatives
  | .named id => [id]
  | _ => []

def argumentIds : Option ValueType → List String
  | none => []
  | some t => t.ids

def allIds : List ValueType → List String
  | [] => []
  | t :: ts => t.ids ++ allIds ts

end

section Congruence

variable {names names' : TypeNames}

/-- Two ways to name types agree on one. -/
def AgreeOn (names names' : TypeNames) (id : String) : Prop :=
  names.name? id = names'.name? id ∧ names.isEnum id = names'.isEnum id

mutual

/-- **Only the named types matter for how a type is written.** -/
theorem write_congr : ∀ t : ValueType, (∀ id ∈ t.ids, AgreeOn names names' id) →
    t.write names = t.write names'
  | .void, _ => by simp only [write]
  | .number _ _, _ => by simp only [write]
  | .boolean _, _ => by simp only [write]
  | .string _, _ => by simp only [write]
  | .any, _ => by simp only [write]
  | .wildcard, _ => by simp only [write]
  | .array element, h => by
    simp only [write, write_congr element (by simpa [ids] using h)]
  | .map key value, h => by
    obtain ⟨hkey, hvalue⟩ := List.forall_mem_append.mp (by simpa only [ids] using h)
    simp only [write, writeArgument_congr key hkey, writeArgument_congr value hvalue]
  | .list element, h => by
    simp only [write, writeArgument_congr element (by simpa [ids] using h)]
  | .optional inner, h => by
    simp only [write, write_congr inner (by simpa [ids] using h)]
  | .coerced inner, h => by
    simp only [write, write_congr inner (by simpa [ids] using h)]
  | .union alternatives, h => by
    simp only [write, writeAlternatives_congr alternatives (by simpa [ids] using h)]
  | .multiResult, _ => by simp only [write]
  | .arguments, _ => by simp only [write]
  | .context, _ => by simp only [write]
  | .named id, h => by
    obtain ⟨hname, henum⟩ := h id (by simp [ids])
    simp only [write, TypeText.named, hname, henum]

theorem writeArgument_congr : ∀ t : Option ValueType,
    (∀ id ∈ argumentIds t, AgreeOn names names' id) →
      writeArgument names t = writeArgument names' t
  | none, _ => by simp only [writeArgument]
  | some t, h => by
    have ht := write_congr t (by simpa [argumentIds] using h)
    cases t <;> simp only [writeArgument, ht]

theorem writeAlternatives_congr : ∀ ts : List ValueType,
    (∀ id ∈ allIds ts, AgreeOn names names' id) →
      writeAlternatives names ts = writeAlternatives names' ts
  | [], _ => by simp only [writeAlternatives]
  | [t], h => by
    simp only [writeAlternatives, write_congr t (by simpa [allIds] using h)]
  | t :: t' :: ts, h => by
    obtain ⟨ht, hts⟩ := List.forall_mem_append.mp (by simpa only [allIds] using h)
    simp only [writeAlternatives, write_congr t ht,
      writeAlternatives_congr (t' :: ts) (by simpa only [allIds] using hts)]

end

end Congruence

end ValueType

/-! ## Functions -/

/-- The declared types that a method's parameters and result name. -/
def MethodDecl.typeIds (decl : MethodDecl) : List String :=
  decl.params.flatMap (·.type.ids) ++ decl.returns.ids

theorem MethodDecl.mem_typeIds_of_param {decl : MethodDecl} {param : Param} {id : String}
    (hparam : param ∈ decl.params) (hid : id ∈ param.type.ids) : id ∈ decl.typeIds :=
  List.mem_append_left _ (List.mem_flatMap.mpr ⟨param, hparam, hid⟩)

theorem visibleParams_subset (decl : MethodDecl) (owner : Option ClassInfo) :
    visibleParams decl owner ⊆ decl.params := by
  intro param hparam
  have hpassed := List.mem_of_mem_filter hparam
  split at hpassed
  · exact List.mem_of_mem_drop hpassed
  · exact hpassed

theorem visibleParams_congr (decl : MethodDecl) {owner owner' : Option ClassInfo}
    (h : Surface.isGeneric owner = Surface.isGeneric owner') :
    visibleParams decl owner = visibleParams decl owner' := by
  simp only [visibleParams, h]

/-- A function put together from its rendered documentation. -/
def FunctionStub.ofRendered (c : Callable) (sourceTag : String) (names : TypeNames) (s : Setting)
    (owner : Option ClassInfo) (documentation : Rendered) : FunctionStub :=
  let decl := c.method.decl
  let captures := documentation.captures
  let params := ParamsDoc.of names s captures decl owner
  let result := returnLine names s captures decl
  { callable := c
    comment :=
      "--[[- " ++ documentation.text ++ "\n" ++ sourceTag ++ params.lines ++ result.text ++ "]]\n"
    signature := params.signature
    problems :=
      documentation.problems ++ params.problems
        ++ returnWarnings s.subject captures.hasReturn decl.returns ++ result.problems }

theorem FunctionStub.compose_eq (project : Project) (owner : Option ClassInfo) (c : Callable) :
    FunctionStub.compose project owner c
      = let resolve := project.resolver (owner.map (·.id))
        ofRendered c (project.sourceTag c.method.decl.source)
          (project.surface.typeNames project.program)
          ((Owner.method c.method).setting project.program resolve) owner
          ((Owner.method c.method).rendered project.program resolve) :=
  rfl

namespace Setting.AgreesOn

variable {V : Target → Prop} {s s' : Setting} {names names' : TypeNames} {captures : Captures}
  {decl : MethodDecl}

theorem paramDoc (h : AgreesOn V s s')
    (hparam : ∀ name nodes, captures.param? name = some nodes → Within V nodes) {param : Param}
    (hnames : ∀ id ∈ param.type.ids, ValueType.AgreeOn names names' id) :
    ParamDoc.of names s captures param = ParamDoc.of names' s' captures param := by
  simp only [ParamDoc.of, param.type.write_congr hnames, h.renderDescription (hparam param.name),
    h.subject]

theorem paramsDoc (h : AgreesOn V s s')
    (hparam : ∀ name nodes, captures.param? name = some nodes → Within V nodes)
    (hnames : ∀ id ∈ decl.typeIds, ValueType.AgreeOn names names' id)
    {owner owner' : Option ClassInfo} (howner : Surface.isGeneric owner = Surface.isGeneric owner') :
    ParamsDoc.of names s captures decl owner = ParamsDoc.of names' s' captures decl owner' := by
  have hdocs : (visibleParams decl owner).map (ParamDoc.of names s captures)
      = (visibleParams decl owner').map (ParamDoc.of names' s' captures) := by
    rw [← visibleParams_congr decl howner]
    refine List.map_congr_left fun param hmem => h.paramDoc hparam fun id hid => ?_
    exact hnames id (MethodDecl.mem_typeIds_of_param (visibleParams_subset decl owner hmem) hid)
  simp only [ParamsDoc.of, hdocs, h.subject]

theorem returnLine (h : AgreesOn V s s')
    (hreturns : ∀ nodes, captures.returns = some nodes → Within V nodes)
    (hnames : ∀ id ∈ decl.typeIds, ValueType.AgreeOn names names' id) :
    ApiStubs.returnLine names s captures decl = ApiStubs.returnLine names' s' captures decl := by
  have hwrite : decl.returns.write names = decl.returns.write names' :=
    decl.returns.write_congr fun id hid => hnames id (List.mem_append_right _ hid)
  simp only [ApiStubs.returnLine, hwrite, h.renderDescription hreturns, h.subject]

/-- **Functions with the same declaration and the same documentation are
put together alike**, if the settings agree. -/
theorem ofRendered (h : AgreesOn V s s') {c c' : Callable} (hdecl : c'.method.decl = c.method.decl)
    {documentation : Rendered}
    (hparam : ∀ name nodes, documentation.captures.param? name = some nodes → Within V nodes)
    (hreturns : ∀ nodes, documentation.captures.returns = some nodes → Within V nodes)
    (hnames : ∀ id ∈ c.method.decl.typeIds, ValueType.AgreeOn names names' id)
    {owner owner' : Option ClassInfo} (howner : Surface.isGeneric owner = Surface.isGeneric owner')
    (sourceTag : String) :
    FunctionStub.ofRendered c' sourceTag names' s' owner' documentation
      = { FunctionStub.ofRendered c sourceTag names s owner documentation with callable := c' } := by
  simp only [FunctionStub.ofRendered, hdecl, h.paramsDoc hparam hnames howner,
    h.returnLine hreturns hnames, h.subject]

end Setting.AgreesOn

end ApiStubs
