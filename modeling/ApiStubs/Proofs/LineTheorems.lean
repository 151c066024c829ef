/-
ApiStubs.Proofs.LineTheorems — what stands on lines of its own.

A stub is read line by line: a tag counts only where it begins a line. A
tag of a comment comes to nothing or to whole lines that begin with `@`
(`tagLines_render`), whatever is nested in it. The documentation of a class
therefore ends a line, and that alone puts the place of the source on a
line of its own, since a header adds no new line before it. A function
does, so there the documentation may end as it likes.

`comment_lines_begin` says all of it: how a rendered comment is made of
its tags, and that the lines that are added to it begin as lines, in
headers and in entries.
-/
import ApiStubs.Proofs.ExtractionTheorems
import ApiStubs.Proofs.SignatureTheorems

namespace ApiStubs

open Fragment Text

/-! ## Lines -/

namespace Text

/-- Nothing, or whole lines that begin with the mark of a tag. -/
def TagLines (s : String) : Prop :=
  s = "" ∨ first? s = some '@' ∧ last? s = some '\n'

theorem TagLines.wholeLines {s : String} (h : TagLines s) : WholeLines s := by
  rcases h with rfl | ⟨-, hlast⟩
  · nofun
  · intro c hc
    rw [Option.mem_def, hlast] at hc
    exact (Option.some.inj hc).symm

/-- Each of the texts, one after the other, stands at the beginning of a
line if they follow `front`. -/
def BeginLines (front : String) (texts : List String) : Prop :=
  ∀ before text after, texts = before ++ text :: after →
    last? (front ++ concat before) = some '\n'

theorem beginLines_of_lines {front : String} {lines : List String} (hfront : last? front = some '\n')
    (hlines : ∀ line ∈ lines, last? line = some '\n') : BeginLines front lines := by
  rintro before line after rfl
  refine last?_append_of_wholeLines hfront (wholeLines_concat fun earlier hearlier c hc => ?_)
  rw [Option.mem_def, hlines earlier (List.mem_append_left _ hearlier)] at hc
  exact (Option.some.inj hc).symm

theorem first?_append_of_some {a : String} {c : Char} (h : first? a = some c) (b : String) :
    first? (a ++ b) = some c := by
  rw [first?, String.toList_append, List.head?_append]
  rw [first?] at h
  rw [h]
  rfl

theorem concat_append (a b : List String) : concat (a ++ b) = concat a ++ concat b := by
  induction a with
  | nil => simp [concat]
  | cons s a ih => rw [List.cons_append, concat_cons, ih, concat_cons, String.append_assoc]

end Text

/-! ## Block tags -/

/-- Is the node a block tag, of the host or of the dialect, or a node of an
unknown kind in the place of one? -/
def DocNode.isBlock : DocNode → Bool
  | .hidden | .param _ _ | .returns _ | .throws _ | .deprecated _ | .see _ | .blockTag _ _
  | .unsupported => true
  | _ => false

namespace Fragment

variable {f : Fragment}

/-- Does the output begin with the mark of a tag? -/
def OpensTag (f : Fragment) : Prop :=
  ∀ fresh, first? (f fresh).text = some '@'

theorem opensTag_write {s : String} (h : first? s = some '@') : (write s).OpensTag :=
  fun _ => h

theorem OpensTag.append (hf : f.OpensTag) (g : Fragment) : (f ++ g).OpensTag :=
  fun fresh => first?_append_of_some (hf fresh) _

theorem OpensTag.after_capture (hf : f.OpensTag) (c : Captures) : (capture c ++ f).OpensTag := by
  intro fresh
  show first? ("" ++ (f _).text) = some '@'
  rw [String.empty_append]
  exact hf _

theorem OpensTag.line (hf : f.OpensTag) (fresh : Bool) : TagLines ((f ++ write "\n") fresh).text :=
  .inr ⟨hf.append (write "\n") fresh, last?_line _⟩

end Fragment

theorem Setting.tagLines_blockTag (s : Setting) (name : String) (attached : Bool)
    (content : Fragment) (fresh : Bool) :
    TagLines (s.blockTag name attached content fresh).text := by
  unfold Setting.blockTag
  cases after vendorNamespace name with
  | none => exact .inl rfl
  | some tag =>
    simp only
    split
    · exact .inl rfl
    · have hmark : first? ("@" ++ tag ++ if attached then "" else " ") = some '@' := by
        rw [String.append_assoc]
        exact first?_append_of_some (by decide) _
      exact (((opensTag_write hmark).after_capture _).append content).line fresh

/-- **A block tag comes to nothing or to whole lines**, whatever is nested
in it. -/
theorem tagLines_render (s : Setting) (place : Place) (fresh : Bool) {node : DocNode}
    (h : node.isBlock = true) : TagLines (node.render s place fresh).text := by
  match node, h with
  | .hidden, _ =>
    show TagLines "@local\n"
    exact .inr ⟨by decide, by decide⟩
  | .param _ _, _ => exact .inl rfl
  | .returns _, _ => exact .inl rfl
  | .throws description, _ =>
    rw [DocNode.render]
    split
    · exact .inl rfl
    · exact ((opensTag_write (by decide)).append _).line fresh
  | .deprecated body, _ =>
    rw [DocNode.render]
    exact ((opensTag_write (by decide)).append _).line fresh
  | .see [], _ => exact .inl rfl
  | .see (first :: rest), _ =>
    rw [DocNode.render]
    exact ((((opensTag_write (by decide)).append _).append _).append _).line fresh
  | .blockTag name content, _ =>
    rw [DocNode.render]
    exact s.tagLines_blockTag _ _ _ fresh
  | .unsupported, _ => exact .inl rfl

/-! ## Comments -/

namespace Owner

variable (owner : Owner) (p : Program) (resolve : Target → Option String)

/-- What a node renders to on its own. -/
def chunk (node : DocNode) : String :=
  (renderNodes (owner.setting p resolve) [node]).text

theorem tagLines_chunk {node : DocNode} (h : node.isBlock = true) :
    TagLines (owner.chunk p resolve node) := by
  have hsingle : renderAll (owner.setting p resolve) {} [node]
      = node.render (owner.setting p resolve) {} := by
    rw [renderAll, renderAll]
    exact Fragment.append_empty _
  rw [chunk, renderNodes, hsingle]
  exact tagLines_render _ _ _ h

theorem text_renderNodes_append (a b : List DocNode) :
    (renderNodes (owner.setting p resolve) (a ++ b)).text
      = (renderNodes (owner.setting p resolve) a).text
        ++ (renderNodes (owner.setting p resolve) b).text := by
  simp only [renderNodes, renderAll_append]
  exact (Rendered.joins_push _ (owner.steady_renderAll p resolve false b)).text

/-- Nodes render to what each of them renders to on its own. -/
theorem text_renderNodes (nodes : List DocNode) :
    (renderNodes (owner.setting p resolve) nodes).text
      = concat (nodes.map (owner.chunk p resolve)) := by
  induction nodes with
  | nil => rfl
  | cons node nodes ih =>
    rw [← List.singleton_append, text_renderNodes_append, ih]
    rfl

theorem text_renderComment (doc : DocComment) :
    (renderComment (owner.setting p resolve) doc).text
      = (renderNodes (owner.setting p resolve) doc.body).text ++ "\n"
        ++ concat (doc.tags.map (owner.chunk p resolve)) := by
  rw [← text_renderNodes]
  exact (Rendered.joins_push ((renderAll (owner.setting p resolve) {} doc.body ++ write "\n").render)
    (owner.steady_renderAll p resolve false doc.tags)).text

/-- A comment with nothing but block tags ends a line. -/
theorem last?_renderComment {doc : DocComment} (h : ∀ tag ∈ doc.tags, tag.isBlock = true) :
    last? (renderComment (owner.setting p resolve) doc).text = some '\n' := by
  rw [text_renderComment]
  refine last?_append_of_wholeLines (last?_line _) (wholeLines_concat fun text htext => ?_)
  obtain ⟨tag, htag, rfl⟩ := List.mem_map.mp htext
  exact (owner.tagLines_chunk p resolve (h tag htag)).wholeLines

end Owner

/-! ## Headers -/

theorem Project.last?_sourceLine (project : Project) (pos : SourcePos) :
    last? (project.sourceTag pos) = some '\n' :=
  last?_line _

namespace StubDocument

/-- What stands before the comment block of a header. -/
def headerFront (c : ClassInfo) : String :=
  match c.typeName with
  | some _ => "--- " ++ moduleTag c ++ "\n\n"
  | none => ""

/-- The lines that a header adds to the documentation of its class. -/
def headerLines (project : Project) (c : ClassInfo) : List String :=
  [project.sourceTag c.decl.source,
    match c.typeName with
    | some name => "@type " ++ name ++ "\n"
    | none => moduleTag c ++ "\n",
    "]]\n"]

/-- What stands after the comment block of a header. -/
def headerBack (c : ClassInfo) : String :=
  match c.typeName with
  | some name => "local " ++ name ++ " = \x7b\x7d\n"
  | none => ""

theorem headerOf_eq_lines (project : Project) (c : ClassInfo) :
    headerOf project c
      = headerFront c ++ "--[[- " ++ (classDocumentation project c).text
        ++ concat (headerLines project c) ++ headerBack c := by
  have hend : "\n]]\n" = "\n" ++ "]]\n" := rfl
  unfold headerOf headerFront headerLines headerBack
  cases c.typeName with
  | some name =>
    simp only [concat, List.foldr_cons, List.foldr_nil, hend, String.append_assoc,
      String.append_empty, -String.reduceAppend]
  | none =>
    simp only [concat, List.foldr_cons, List.foldr_nil, hend, String.append_assoc,
      String.append_empty, String.empty_append, -String.reduceAppend]

theorem last?_headerLines (project : Project) (c : ClassInfo) :
    ∀ line ∈ headerLines project c, last? line = some '\n' := by
  simp only [headerLines, List.forall_mem_cons]
  refine ⟨project.last?_sourceLine _, ?_, by decide, List.forall_mem_nil _⟩
  cases c.typeName with
  | some name => exact last?_line _
  | none => exact last?_line _

end StubDocument

/-! ## Entries -/

namespace Project

variable (project : Project) (f : Callable)

/-- The lines for the parameters of a function, none if its comment has a
tag for them. -/
def tparamLines : List String :=
  if (project.commentVisits f).any (·.node.isParamTag) then []
  else ((project.passedParams f).filter (!·.type.isAny)).map (project.paramLine f)

/-- The line for the result of a function, none if its comment has a tag
for it or there is no result. -/
def treturnLines : List String :=
  if (project.commentVisits f).any (·.node.isReturnTag) || f.method.decl.returns.isVoid then []
  else [project.resultLine f]

/-- The lines that an entry adds to the documentation of its function. -/
def entryLines : List String :=
  project.sourceTag f.method.decl.source :: (project.tparamLines f ++ project.treturnLines f)
    ++ ["]]\n"]

theorem lines_paramsDoc : (project.paramsDoc f).lines = concat (project.tparamLines f) := by
  unfold tparamLines
  split
  · next hseen => exact (project.paramsDoc_of_seen f hseen).1
  · next hunseen => exact (project.paramsDoc_of_unseen f (Bool.eq_false_iff.mpr hunseen)).1

theorem text_resultDoc : (project.resultDoc f).text = concat (project.treturnLines f) := by
  unfold resultDoc returnLine treturnLines
  rw [hasReturn_commentOf]
  split
  · rfl
  · simp only [concat, List.foldr_cons, List.foldr_nil, String.append_empty, resultLine,
      returns_commentOf, text_renderDescription, typeText]

theorem comment_composed_eq_lines :
    (project.composed f).comment
      = "--[[- " ++ (project.commentOf f).text ++ "\n" ++ concat (project.entryLines f) := by
  have hcomment : (project.composed f).comment
      = "--[[- " ++ (project.commentOf f).text ++ "\n" ++ project.sourceTag f.method.decl.source
        ++ (project.paramsDoc f).lines ++ (project.resultDoc f).text ++ "]]\n" := rfl
  rw [hcomment, lines_paramsDoc, text_resultDoc, entryLines, concat_append, concat_cons,
    concat_append]
  simp [concat, String.append_assoc]

theorem last?_entryLines : ∀ line ∈ project.entryLines f, last? line = some '\n' := by
  intro line hline
  simp only [entryLines, List.mem_append, List.mem_cons, List.not_mem_nil, or_false] at hline
  obtain (rfl | hparam | hresult) | rfl := hline
  · exact project.last?_sourceLine _
  · unfold tparamLines at hparam
    split at hparam
    · cases hparam
    · obtain ⟨param, -, rfl⟩ := List.mem_map.mp hparam
      exact last?_line _
  · unfold treturnLines at hresult
    split at hresult
    · cases hresult
    · rw [List.mem_singleton.mp hresult]
      exact last?_line _
  · decide

end Project

/-! ## Stubs -/

/-- What is documented has a comment. -/
theorem Surface.exists_doc {p : Program} {caps : Capabilities} {c : ClassInfo}
    (hc : c ∈ (Surface.of p caps).classes) : ∃ doc, c.decl.doc = some doc := by
  obtain ⟨t, -, hclass⟩ := mem_classes.mp hc
  have presents := presents_of_classOf? hclass
  obtain ⟨text, ⟨-, doc, hdoc, -⟩, -⟩ := presents.named
  exact ⟨doc, presents.decl ▸ hdoc⟩

theorem StubDocument.beginLines_header {project : Project} {c : ClassInfo} {doc : DocComment}
    (hdoc : c.decl.doc = some doc) (htags : ∀ tag ∈ doc.tags, tag.isBlock = true) :
    BeginLines (headerFront c ++ "--[[- " ++ (classDocumentation project c).text)
      (headerLines project c) := by
  refine beginLines_of_lines ?_ (last?_headerLines project c)
  have hrendered : (classDocumentation project c).text
      = (renderComment ((Owner.type c.decl).setting project.program
          (project.resolver (some c.id))) doc).text := by
    simp only [classDocumentation, hdoc]
  rw [hrendered, last?_append, Owner.last?_renderComment _ _ _ htags]
  rfl

/-- **Block tags are lines, and so is what is added to them.** A comment
with nothing but block tags is its body, a new line and then, tag by tag,
nothing or whole lines that begin with `@`. In the header of a class with
such a comment, the place of the source, the tag for the type or the
module and the end of the block each begin a line. In the entries, so do
the place of the source, the lines for parameters and result and the end of
the block, whatever the comment is like. -/
theorem comment_lines_begin :
    (∀ (p : Program) (resolve : Target → Option String) (owner : Owner) (doc : DocComment),
      (∀ tag ∈ doc.tags, tag.isBlock = true) →
        (renderComment (owner.setting p resolve) doc).text
            = (renderNodes (owner.setting p resolve) doc.body).text ++ "\n"
              ++ concat (doc.tags.map (owner.chunk p resolve)) ∧
          ∀ tag ∈ doc.tags, TagLines (owner.chunk p resolve tag)) ∧
    ∀ (models : List Model) (p : Program) (currentDir : String) (config : Config),
      Program.build models = .ok p →
        let project := Project.of currentDir config p
        ∃ generated, generate currentDir config models = .ok generated ∧
          generated.stubs.Perm (project.surface.classes.map project.stub) ∧
          ∀ c ∈ project.surface.classes,
            (∃ doc, c.decl.doc = some doc ∧
              (project.stub c).header
                = StubDocument.headerFront c ++ "--[[- "
                  ++ (StubDocument.classDocumentation project c).text
                  ++ concat (StubDocument.headerLines project c) ++ StubDocument.headerBack c ∧
              ((∀ tag ∈ doc.tags, tag.isBlock = true) →
                BeginLines (StubDocument.headerFront c ++ "--[[- "
                    ++ (StubDocument.classDocumentation project c).text)
                  (StubDocument.headerLines project c))) ∧
            (project.stub c).entries = (project.shown c).map (project.entryIn c) ∧
            ∀ f ∈ project.shown c,
              project.entryIn c f
                = "\n--[[- " ++ (project.commentOf f).text ++ "\n" ++ concat (project.entryLines f)
                  ++ concat (((project.composed f).definitions (StubDocument.qualifier c)).map
                      (·.2)) ∧
              BeginLines ("\n--[[- " ++ (project.commentOf f).text ++ "\n")
                (project.entryLines f) := by
  refine ⟨fun p resolve owner doc htags => ⟨owner.text_renderComment p resolve doc,
    fun tag htag => owner.tagLines_chunk p resolve (htags tag htag)⟩, ?_⟩
  intro models p currentDir config hbuild project
  have numbered : project.Numbered :=
    Project.numbered_of (Program.tables_of_build hbuild) currentDir config
  refine ⟨_, generate_of_build hbuild currentDir config, project.stubs_generate, fun c hc => ?_⟩
  obtain ⟨doc, hdoc⟩ := Surface.exists_doc hc
  refine ⟨⟨doc, hdoc, StubDocument.headerOf_eq_lines project c,
    StubDocument.beginLines_header hdoc⟩, numbered.entries_stub, fun f hf => ⟨?_, ?_⟩⟩
  · have hfront : "\n--[[- " = "\n" ++ "--[[- " := rfl
    rw [Project.entryIn, FunctionStub.entry_eq, Project.comment_composed_eq_lines, hfront]
    simp only [String.append_assoc, -String.reduceAppend]
  · exact beginLines_of_lines (last?_line _) (project.last?_entryLines f)

/-! ## Tags with markup in them

The documentation of `Os` points elsewhere and shows a piece of code
there, and hides what it throws. -/

namespace Markup

def doc : DocComment where
  body := [.text "Time."]
  tags := [.see [.code "clock", .element "pre" [] [.code "os.clock()"] false],
    .throws [.text "(hidden) never"], .blockTag "cc.module" [.text "os"]]

def os : TypeDecl :=
  { id := "a.Os", name := "Os", source := ⟨"src/A.java", 1, 0⟩, doc := some doc }

def osClass : ClassInfo := ClassInfo.ofAuxiliary ⟨0, os⟩ false none "os"

def sample : ClassSample where
  models := [{ types := [os] }]
  documented := osClass

/-- The comment is cut into its tags, and the header begins its lines. -/
theorem header_lines_begin :
    (∀ tag ∈ doc.tags, tag.isBlock = true) ∧
      (renderComment ((Owner.type os).setting sample.program (fun _ => none)) doc).text
        = (renderNodes ((Owner.type os).setting sample.program (fun _ => none)) doc.body).text
          ++ "\n" ++ concat (doc.tags.map ((Owner.type os).chunk sample.program (fun _ => none))) ∧
      BeginLines (StubDocument.headerFront osClass ++ "--[[- "
          ++ (StubDocument.classDocumentation sample.project osClass).text)
        (StubDocument.headerLines sample.project osClass) := by
  have htags : ∀ tag ∈ doc.tags, tag.isBlock = true := by simp [doc, DocNode.isBlock]
  obtain ⟨hcomments, hstubs⟩ := comment_lines_begin
  obtain ⟨_, -, -, hall⟩ := hstubs _ _ "/" {} sample.build_models
  obtain ⟨⟨found, hfound, -, hbegin⟩, -⟩ := hall osClass sample.documented_mem
  obtain rfl : doc = found := Option.some.inj hfound
  exact ⟨htags, (hcomments sample.program (fun _ => none) (.type os) doc htags).1, hbegin htags⟩

end Markup

end ApiStubs
