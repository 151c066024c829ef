/-
ApiStubs.Proofs.SignatureTheorems — the parameters and the result of a
function in its comment, its signature and its warnings.

A comment may describe parameters and result in tags of the dialect, and
then nothing is added to it. Otherwise one pass over the parameters makes
the signature, the lines of the comment and the warnings. The flags that
decide between the two come from the nodes that are met in rendering the
comment, wherever they stand and also in inherited comments
(`Visit.flags_total`), and so do the descriptions that go into the lines
(`Visit.look_total`).

`ParamsDescribed` and `ResultDescribed` say what is to be expected, case by
case, and `signature_agrees_with_comment` says that a composed function has
it.
-/
import ApiStubs.Proofs.CompositionTheorems
import ApiStubs.Proofs.CutTheorems
import ApiStubs.Proofs.ReferenceTheorems
import ApiStubs.Proofs.ReportTheorems

namespace ApiStubs

/-! ## Tags that are met -/

/-- Is the node a tag of the dialect that describes parameters? -/
def DocNode.isParamTag : DocNode → Bool
  | .blockTag name _ => name = "cc.param" || name = "cc.tparam"
  | _ => false

/-- Is the node a tag of the dialect that describes the result? -/
def DocNode.isReturnTag : DocNode → Bool
  | .blockTag name _ => name = "cc.return" || name = "cc.treturn"
  | _ => false

/-- The description in a host tag for the parameter of this name. -/
def DocNode.paramText? (name : String) : DocNode → Option (List DocNode)
  | .param other description => if other = name then some description else none
  | _ => none

/-- The description in a host tag for the result. -/
def DocNode.returnText? : DocNode → Option (List DocNode)
  | .returns description => some description
  | _ => none

namespace Visit

/-- A block tag raises a flag if it has the full name of a tag that does. -/
theorem flags_captures (v : Visit) :
    v.captures.hasParam = v.node.isParamTag ∧ v.captures.hasReturn = v.node.isReturnTag := by
  obtain ⟨owner, s, place, node⟩ := v
  cases node with
  | blockTag name content =>
    have hfull : ∀ tag, Text.after vendorNamespace name = some tag ↔ name = "cc." ++ tag :=
      fun tag => Text.after_eq_some_iff
    have hparam : Text.after vendorNamespace name = some "param" ↔ name = "cc.param" :=
      hfull "param"
    have htparam : Text.after vendorNamespace name = some "tparam" ↔ name = "cc.tparam" :=
      hfull "tparam"
    have hreturn : Text.after vendorNamespace name = some "return" ↔ name = "cc.return" :=
      hfull "return"
    have htreturn : Text.after vendorNamespace name = some "treturn" ↔ name = "cc.treturn" :=
      hfull "treturn"
    simp only [captures, DocNode.isParamTag, DocNode.isReturnTag, ← hparam, ← htparam, ← hreturn,
      ← htreturn]
    cases Text.after vendorNamespace name <;> simp [tagCaptures]
  | _ => exact ⟨rfl, rfl⟩

/-- The flags of a comment are raised by the tags met in it. -/
theorem flags_total (vs : List Visit) :
    (total vs).captures.hasParam = vs.any (·.node.isParamTag) ∧
      (total vs).captures.hasReturn = vs.any (·.node.isReturnTag) := by
  induction vs with
  | nil => exact ⟨rfl, rfl⟩
  | cons v vs ih =>
    obtain ⟨hparam, hreturn⟩ := v.flags_captures
    simp only [total_cons, Rendered.append, Captures.merge, own, List.any_cons, hparam, hreturn,
      ih.1, ih.2, and_self]

/-- Of several nodes that give an answer, the last one met counts. -/
def lastOf? {α : Type} (answer : DocNode → Option α) (vs : List Visit) : Option α :=
  vs.reverse.findSome? fun v => answer v.node

theorem lastOf?_cons {α : Type} (answer : DocNode → Option α) (v : Visit) (vs : List Visit) :
    lastOf? answer (v :: vs) = (lastOf? answer vs <|> answer v.node) := by
  simp [lastOf?, List.findSome?_append]

/-- A look at captured tags in which the later of two parts counts finds
what the last node with an answer gives. -/
theorem look_total {α : Type} (look : Captures → Option α) {answer : DocNode → Option α}
    (hempty : look {} = none) (hmerge : ∀ a b, look (a.merge b) = (look b <|> look a))
    (hown : ∀ v : Visit, look v.captures = answer v.node) (vs : List Visit) :
    look (total vs).captures = lastOf? answer vs := by
  induction vs with
  | nil => exact hempty
  | cons v vs ih =>
    have hcaptures : (total (v :: vs)).captures = v.captures.merge (total vs).captures := rfl
    rw [hcaptures, hmerge, ih, hown, lastOf?_cons]

theorem param?_total (name : String) (vs : List Visit) :
    (total vs).captures.param? name = lastOf? (DocNode.paramText? name) vs := by
  refine look_total (·.param? name) rfl (fun a b => a.param?_merge b name) (fun v => ?_) vs
  obtain ⟨owner, s, place, node⟩ := v
  cases node with
  | param other description =>
    simp only [captures, Captures.param?, DocNode.paramText?]
    by_cases hname : other = name <;> simp [hname]
  | blockTag tag content =>
    simp only [captures, Captures.param?, (captures_blockTag tag).1]
    rfl
  | _ => rfl

theorem returns_total (vs : List Visit) :
    (total vs).captures.returns = lastOf? DocNode.returnText? vs := by
  refine look_total (·.returns) rfl (fun a b => rfl) (fun v => ?_) vs
  obtain ⟨owner, s, place, node⟩ := v
  cases node with
  | blockTag tag content => exact (captures_blockTag tag).2
  | _ => rfl

end Visit

/-! ## What is expected -/

/-- A warning about a declaration. -/
def warningFor (subject : Subject) (message : String) : Diagnostic :=
  { level := .warning, subject, message }

/-- The warnings among some diagnostics. -/
def warnings (ds : List Diagnostic) : List Diagnostic :=
  ds.filter (·.level = .warning)

namespace Project

section Function

variable (project : Project) (f : Callable)

/-- The documented class that owns a function. -/
def ownerOf : Option ClassInfo :=
  project.surface.owner? project.program.graph f.method.owner

/-- What names are resolved with in the documentation of a function. -/
def resolverOf : Target → Option String :=
  project.resolver ((project.ownerOf f).map (·.id))

/-- The rendered comment of a function. -/
def commentOf : Rendered :=
  (Owner.method f.method).rendered project.program (project.resolverOf f)

/-- The nodes met in rendering the comment of a function. -/
def commentVisits : List Visit :=
  project.methodVisits (project.ownerOf f) f.method (Owner.method f.method).nodes

/-- The parameters that scripts pass: without the first one if the
function is static and owned by a generic source, and without those that
the runtime supplies. -/
def passedParams : List Param :=
  let dispatched := f.method.decl.isStatic
    && (project.ownerOf f).any (·.classification = .genericSource)
  (f.method.decl.params.drop dispatched.toNat).filter (!·.type.isIrrelevant)

/-- The expression for a type in the comment of a function. -/
def typeText (type : ValueType) : String :=
  (type.write (project.surface.typeNames project.program)).text

/-- A description after a space, or nothing. -/
def describe : Option (List DocNode) → String
  | none => ""
  | some nodes =>
    " " ++ (renderNodes ((Owner.method f.method).setting project.program (project.resolverOf f))
      nodes).text

/-- The line of a parameter. -/
def paramLine (param : Param) : String :=
  "@tparam" ++ (if param.type.isOptional then "[opt]" else "") ++ " "
    ++ project.typeText param.type ++ " " ++ displayName param.name
    ++ project.describe f (Visit.lastOf? (DocNode.paramText? param.name) (project.commentVisits f))
    ++ "\n"

/-- The line of the result. -/
def resultLine : String :=
  let decl := f.method.decl
  "@treturn " ++ project.typeText decl.returns
    ++ (if decl.nullable || decl.returns.isOptional then "|nil" else "")
    ++ project.describe f (Visit.lastOf? DocNode.returnText? (project.commentVisits f)) ++ "\n"

end Function

/-- What stands for a parameter in the signature. -/
def signatureItem (param : Param) : String :=
  if param.type.isAny then "..." else displayName param.name

/-- Signature, lines and warnings of the parameters. Tags of the dialect
leave the signature empty; that is warned about where types alone would
have said it all. Otherwise every parameter that scripts pass has its item
in the signature; a dynamic one has a warning, and any other one a line. -/
inductive ParamsDescribed (project : Project) (f : Callable) :
    (signature : String) → (lines : List String) → List Diagnostic → Prop
  | byTags (seen : ∃ v ∈ project.commentVisits f, v.node.isParamTag = true) :
    project.ParamsDescribed f "" []
      (if ∀ param ∈ f.method.decl.params, param.type.isIrrelevant ∨ param.type.isKnown then
        [warningFor (project.program.methodSubject f.method)
          "Method uses @cc.tparam, but has no arbitrary arguments."]
      else [])
  | byTypes (unseen : ∀ v ∈ project.commentVisits f, v.node.isParamTag = false) :
    project.ParamsDescribed f (Text.join ", " ((project.passedParams f).map signatureItem))
      (((project.passedParams f).filter (!·.type.isAny)).map (project.paramLine f))
      (((project.passedParams f).filter (·.type.isAny)).map fun _ =>
        warningFor (project.program.methodSubject f.method)
          "Method has a dynamic argument but has no @cc.param tag.")

/-- Line and warnings of the result. It has a line unless the comment has
a tag for it, or there is no result. -/
inductive ResultDescribed (project : Project) (f : Callable) :
    (line : String) → List Diagnostic → Prop
  | byTag (seen : ∃ v ∈ project.commentVisits f, v.node.isReturnTag = true) :
    project.ResultDescribed f ""
      (if f.method.decl.returns.isKnown then
        [warningFor (project.program.methodSubject f.method)
          "Method has a @cc.return but returns a known type."]
      else [])
  | noResult (unseen : ∀ v ∈ project.commentVisits f, v.node.isReturnTag = false)
    (void : f.method.decl.returns = .void) : project.ResultDescribed f "" []
  | byType (unseen : ∀ v ∈ project.commentVisits f, v.node.isReturnTag = false)
    (value : f.method.decl.returns ≠ .void) :
    project.ResultDescribed f (project.resultLine f)
      (if f.method.decl.returns.isAny then
        [warningFor (project.program.methodSubject f.method)
          "Method returns an arbitrary object but has no @cc.return tag."]
      else [])

end Project

/-! ## What is composed -/

theorem warnings_append (as bs : List Diagnostic) :
    warnings (as ++ bs) = warnings as ++ warnings bs :=
  List.filter_append ..

theorem warnings_of_errors {ds : List Diagnostic} (h : ∀ d ∈ ds, d.level = .error) :
    warnings ds = [] := by
  rw [warnings, List.filter_eq_nil_iff]
  intro d hd
  simp [h d hd]

theorem warnings_typeProblems (subject : Subject) (t : TypeText) :
    warnings (typeProblems subject t) = [] := by
  apply warnings_of_errors
  intro d hd
  obtain ⟨what, _, rfl⟩ := List.mem_map.mp hd
  rfl

theorem Text.concat_map_of_empty {α : Type} {line written : α → String} {skip : α → Bool}
    (h : ∀ x, line x = if skip x then "" else written x) (xs : List α) :
    concat (xs.map line) = concat ((xs.filter (!skip ·)).map written) := by
  induction xs with
  | nil => rfl
  | cons x xs ih =>
    rw [List.map_cons, concat_cons, ih, h x]
    cases hskip : skip x <;> simp [hskip, concat_cons]

namespace Project

variable (project : Project) (f : Callable)

theorem captures_commentOf :
    (project.commentOf f).captures = (Visit.total (project.commentVisits f)).captures :=
  (Owner.method f.method).captures_rendered project.program (project.resolverOf f)

theorem hasParam_commentOf :
    (project.commentOf f).captures.hasParam
      = (project.commentVisits f).any (·.node.isParamTag) := by
  rw [captures_commentOf, (Visit.flags_total _).1]

theorem hasReturn_commentOf :
    (project.commentOf f).captures.hasReturn
      = (project.commentVisits f).any (·.node.isReturnTag) := by
  rw [captures_commentOf, (Visit.flags_total _).2]

theorem param?_commentOf (name : String) :
    (project.commentOf f).captures.param? name
      = Visit.lastOf? (DocNode.paramText? name) (project.commentVisits f) := by
  rw [captures_commentOf, Visit.param?_total]

theorem returns_commentOf :
    (project.commentOf f).captures.returns
      = Visit.lastOf? DocNode.returnText? (project.commentVisits f) := by
  rw [captures_commentOf, Visit.returns_total]

theorem visibleParams_ownerOf :
    visibleParams f.method.decl (project.ownerOf f) = project.passedParams f := by
  unfold visibleParams passedParams Surface.isGeneric
  cases f.method.decl.isStatic <;>
    cases (project.ownerOf f).any (·.classification = .genericSource) <;> simp

theorem text_renderDescription (described : Option (List DocNode)) :
    (renderDescription ((Owner.method f.method).setting project.program (project.resolverOf f))
      described).text = project.describe f described := by
  cases described <;> rfl

/-! ### Parameters -/

/-- What is written for one parameter of a function. -/
def paramDoc (param : Param) : ParamDoc :=
  ParamDoc.of (project.surface.typeNames project.program)
    ((Owner.method f.method).setting project.program (project.resolverOf f))
    (project.commentOf f).captures param

theorem item_paramDoc (param : Param) : (project.paramDoc f param).item = signatureItem param := by
  unfold paramDoc ParamDoc.of signatureItem
  split <;> rfl

theorem line_paramDoc (param : Param) :
    (project.paramDoc f param).line
      = if param.type.isAny then "" else project.paramLine f param := by
  unfold paramDoc ParamDoc.of
  split
  · rfl
  · simp only [param?_commentOf, text_renderDescription, paramLine]
    cases param.type.isOptional <;> simp [typeText, String.append_assoc]

theorem warnings_paramDoc (param : Param) :
    warnings (project.paramDoc f param).problems
      = if param.type.isAny then
          [warningFor (project.program.methodSubject f.method)
            "Method has a dynamic argument but has no @cc.param tag."]
        else [] := by
  unfold paramDoc ParamDoc.of
  split
  · rw [Owner.subject_setting]
    rfl
  · simp only [warnings_append, warnings_typeProblems,
      warnings_of_errors Owner.level_of_description, List.append_nil]

/-- What is written for the parameters of a function. -/
def paramsDoc : ParamsDoc :=
  ParamsDoc.of (project.surface.typeNames project.program)
    ((Owner.method f.method).setting project.program (project.resolverOf f))
    (project.commentOf f).captures f.method.decl (project.ownerOf f)

theorem paramsDoc_of_seen (h : (project.commentVisits f).any (·.node.isParamTag) = true) :
    (project.paramsDoc f).lines = Text.concat [] ∧
      project.ParamsDescribed f (project.paramsDoc f).signature []
        (warnings (project.paramsDoc f).problems) := by
  have hseen := ParamsDescribed.byTags (List.any_eq_true.mp h)
  simp only [paramsDoc, ParamsDoc.of, hasParam_commentOf, h, if_true, describedByTypes,
    List.all_eq_true, Bool.or_eq_true, Owner.subject_setting]
  refine ⟨rfl, ?_⟩
  convert hseen using 1
  split <;> rfl

/-- One pass over the parameters that scripts pass. -/
theorem paramsDoc_of_unseen (h : (project.commentVisits f).any (·.node.isParamTag) = false) :
    (project.paramsDoc f).lines
        = Text.concat
            (((project.passedParams f).filter (!·.type.isAny)).map (project.paramLine f)) ∧
      project.ParamsDescribed f (project.paramsDoc f).signature
        (((project.passedParams f).filter (!·.type.isAny)).map (project.paramLine f))
        (warnings (project.paramsDoc f).problems) := by
  have hdocs : project.paramsDoc f
      = { signature := Text.join ", " ((project.passedParams f).map
            fun param => (project.paramDoc f param).item)
          lines := Text.concat ((project.passedParams f).map
            fun param => (project.paramDoc f param).line)
          problems := (project.passedParams f).flatMap
            fun param => (project.paramDoc f param).problems } := by
    simp only [paramsDoc, ParamsDoc.of, hasParam_commentOf, h, Bool.false_eq_true, if_false,
      visibleParams_ownerOf, List.map_map, List.flatMap_map]
    rfl
  have hwarnings : warnings ((project.passedParams f).flatMap
      fun param => (project.paramDoc f param).problems)
        = ((project.passedParams f).filter (·.type.isAny)).map fun _ =>
            warningFor (project.program.methodSubject f.method)
              "Method has a dynamic argument but has no @cc.param tag." := by
    induction project.passedParams f with
    | nil => rfl
    | cons param params ih =>
      rw [List.flatMap_cons, warnings_append, ih, warnings_paramDoc, List.filter_cons]
      cases param.type.isAny <;> rfl
  rw [hdocs]
  refine ⟨Text.concat_map_of_empty (project.line_paramDoc f) _, ?_⟩
  simp only [item_paramDoc, hwarnings]
  exact .byTypes (by simpa using h)

theorem exists_paramsDescribed :
    ∃ lines, (project.paramsDoc f).lines = Text.concat lines ∧
      project.ParamsDescribed f (project.paramsDoc f).signature lines
        (warnings (project.paramsDoc f).problems) := by
  cases hseen : (project.commentVisits f).any (·.node.isParamTag) with
  | true => exact ⟨_, project.paramsDoc_of_seen f hseen⟩
  | false => exact ⟨_, project.paramsDoc_of_unseen f hseen⟩

/-! ### Results -/

/-- The line of the result, if it gets one. -/
def resultDoc : Rendered :=
  returnLine (project.surface.typeNames project.program)
    ((Owner.method f.method).setting project.program (project.resolverOf f))
    (project.commentOf f).captures f.method.decl

/-- What is warned about the result. -/
def resultWarnings : List Diagnostic :=
  returnWarnings (project.program.methodSubject f.method)
    (project.commentOf f).captures.hasReturn f.method.decl.returns

theorem warnings_resultDoc : warnings (project.resultDoc f).problems = [] := by
  unfold resultDoc returnLine
  split
  · rfl
  · simp only [warnings_append, warnings_typeProblems,
      warnings_of_errors Owner.level_of_description, List.append_nil]

theorem warnings_resultWarnings :
    warnings (project.resultWarnings f) = project.resultWarnings f := by
  unfold resultWarnings returnWarnings
  split
  · rfl
  · split <;> rfl

theorem resultDescribed :
    project.ResultDescribed f (project.resultDoc f).text (project.resultWarnings f) := by
  cases hseen : (project.commentVisits f).any (·.node.isReturnTag) with
  | true =>
    simp only [resultDoc, returnLine, resultWarnings, returnWarnings, hasReturn_commentOf, hseen,
      Bool.true_or, if_true, Bool.not_true, Bool.false_and, Bool.true_and, Bool.false_eq_true,
      if_false]
    exact .byTag (List.any_eq_true.mp hseen)
  | false =>
    have hunseen : ∀ v ∈ project.commentVisits f, v.node.isReturnTag = false := by
      simpa using hseen
    by_cases hvoid : f.method.decl.returns = .void
    · simp only [resultDoc, returnLine, resultWarnings, returnWarnings, hasReturn_commentOf, hseen,
        hvoid]
      exact .noResult hunseen hvoid
    · have hvalue : f.method.decl.returns.isVoid = false := by
        cases hreturns : f.method.decl.returns <;> simp_all [ValueType.isVoid]
      simp only [resultDoc, returnLine, resultWarnings, returnWarnings, hasReturn_commentOf, hseen,
        hvalue, returns_commentOf, text_renderDescription, Bool.or_self, Bool.false_eq_true,
        if_false, Bool.not_false, Bool.true_and, Bool.false_and]
      exact .byType hunseen hvoid

/-! ### Functions -/

theorem problems_composed :
    (project.composed f).problems
      = (project.commentOf f).problems ++ (project.paramsDoc f).problems
        ++ project.resultWarnings f ++ (project.resultDoc f).problems := by
  have hsubject : ((Owner.method f.method).setting project.program (project.resolverOf f)).subject
      = project.program.methodSubject f.method := subject_methodSetting ..
  rw [resultWarnings, ← hsubject]
  rfl

theorem warnings_composed :
    warnings (project.composed f).problems
      = warnings (project.paramsDoc f).problems ++ project.resultWarnings f := by
  have hcomment : warnings (project.commentOf f).problems = [] :=
    warnings_of_errors (Owner.method f.method).level_of_rendered
  rw [problems_composed, warnings_append, warnings_append, warnings_append, hcomment,
    warnings_resultDoc, warnings_resultWarnings, List.nil_append, List.append_nil]

/-- **Signature, comment and warnings of a function agree.** The comment is
the rendered documentation, the place of the source, the lines of the
parameters and the line of the result, and the warnings are those about
the parameters and about the result. Whether these are described by tags
of the comment or by their types depends on the nodes that are met in
rendering the documentation, inherited or not. -/
theorem signature_agrees_with_comment :
    ∃ lines line forParams forResult,
      (project.composed f).comment
        = "--[[- " ++ (project.commentOf f).text ++ "\n" ++ project.sourceTag f.method.decl.source
          ++ Text.concat lines ++ line ++ "]]\n" ∧
      project.ParamsDescribed f (project.composed f).signature lines forParams ∧
      project.ResultDescribed f line forResult ∧
      warnings (project.composed f).problems = forParams ++ forResult := by
  obtain ⟨lines, hlines, hparams⟩ := project.exists_paramsDescribed f
  refine ⟨lines, (project.resultDoc f).text, _, _, ?_, hparams, project.resultDescribed f,
    project.warnings_composed f⟩
  rw [← hlines]
  rfl

end Project

end ApiStubs
