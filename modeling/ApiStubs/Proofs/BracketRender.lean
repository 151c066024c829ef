/-
ApiStubs.Proofs.BracketRender — closing brackets in rendered text.

Rendering writes closing brackets of its own: around the targets of links,
around the labels of links and around the three constants. None of them
stands at the beginning of what is written, so that what is written one
after the other brings no two of them together. The exception is the
bracket that ends a label: a label that ENDS with a link or a constant has
two in a row (`Visit.closesEarly`).

So, without closing brackets in the documentation itself (`DocNode.Plain`),
rendered text has two of them in a row exactly if one of the visited nodes
is such a link (`Fragment.ClosesWith`). The induction is the one of
`RenderVisits`: on the tree, and on the methods that are not yet on the
chain.
-/
import ApiStubs.Proofs.BracketText
import ApiStubs.Proofs.StubVisitTheorems

namespace ApiStubs

open Text

/-! ## The strings that stubs show -/

/-- The strings of an attribute. -/
def Attribute.strings (a : Attribute) : List String :=
  a.name :: a.value.text?.toList

mutual

/-- The strings of a node that rendering may write. The content of a tag
that names a module is not among them. -/
def DocNode.strings : DocNode → List String
  | .text body => [body]
  | .erroneous body => [body]
  | .code body => [body]
  | .literal body => [body]
  | .reference r => [r.signature]
  | .link r label => r.signature :: stringsAll label
  | .element name attributes children _ =>
    name :: attributes.flatMap (·.strings) ++ stringsAll children
  | .entity name => [name]
  | .param _ description => stringsAll description
  | .returns description => stringsAll description
  | .throws description => stringsAll description
  | .deprecated body => stringsAll body
  | .see target => stringsAll target
  | .blockTag name content => if name = "cc.module" then [] else name :: stringsAll content
  | .inheritDoc => []
  | .hidden => []
  | .unsupported => []

/-- The strings of some nodes. -/
def stringsAll : List DocNode → List String
  | [] => []
  | node :: nodes => node.strings ++ stringsAll nodes

end

/-- The strings of a comment. -/
def DocComment.strings (doc : DocComment) : List String :=
  stringsAll doc.nodes

/-- The strings of a method: its names and those of its parameters, the
file it stands in and its documentation. -/
def MethodDecl.strings (decl : MethodDecl) : List String :=
  decl.name :: decl.source.file :: (decl.marker.bind (·.names)).getD []
    ++ decl.params.map (·.name) ++ (decl.doc.map (·.strings)).getD []

/-- The strings of a type and its methods. What a type is called in stubs
is up to its module tag. -/
def TypeDecl.strings (decl : TypeDecl) : List String :=
  decl.source.file :: (decl.doc.map (·.strings)).getD [] ++ decl.methods.flatMap (·.strings)

/-- The strings of a model. -/
def Model.strings (model : Model) : List String :=
  model.types.flatMap (·.strings)

/-- No closing bracket is written for a node but those of rendering. -/
def DocNode.Plain (node : DocNode) : Prop :=
  ∀ s ∈ node.strings, Bracketless s

theorem stringsAll_eq_flatMap (nodes : List DocNode) :
    stringsAll nodes = nodes.flatMap (·.strings) := by
  induction nodes with
  | nil => rfl
  | cons node nodes ih => rw [stringsAll, ih, List.flatMap_cons]

theorem plain_of_stringsAll {nodes : List DocNode} (h : ∀ s ∈ stringsAll nodes, Bracketless s) :
    ∀ node ∈ nodes, node.Plain := by
  intro node hnode s hs
  refine h s ?_
  rw [stringsAll_eq_flatMap]
  exact List.mem_flatMap.mpr ⟨node, hnode, hs⟩

/-- Only module tags have something to hide. -/
theorem DocNode.Plain.inside {parent : DocNode} (h : parent.Plain)
    (hmodule : parent.isModuleTag = false) : ∀ node ∈ parent.children, node.Plain := by
  have hstrings : ∀ s ∈ stringsAll parent.children, s ∈ parent.strings := by
    cases parent <;> simp_all [DocNode.children, DocNode.strings, DocNode.isModuleTag, stringsAll]
  exact plain_of_stringsAll fun s hs => h s (hstrings s hs)

/-! ## Text and visits -/

/-- Does the node put two closing brackets next to each other? Only a link
does, whose label ends with one. -/
def Visit.closesEarly (v : Visit) : Bool :=
  match v.node with
  | .link _ label => last? (renderAll v.setting v.place label false).text = some ']'
  | _ => false

/-- The text closes a block exactly if one of the nodes does. -/
def Text.ClosesWith (s : String) (vs : List Visit) : Prop :=
  ClosesIff s (∃ v ∈ vs, v.closesEarly = true)

namespace Text

variable {s t : String} {vs ws : List Visit}

theorem closesWith_nil (h : ClosesIff s False) : ClosesWith s [] :=
  ⟨h.first, by simpa using h.closing⟩

theorem ClosesWith.append (hs : ClosesWith s vs) (ht : ClosesWith t ws) :
    ClosesWith (s ++ t) (vs ++ ws) := by
  have h := ClosesIff.append hs ht
  refine ⟨h.first, h.closing.trans ?_⟩
  simp only [List.mem_append, or_and_right, exists_or]

theorem closesWith_empty : ClosesWith "" [] :=
  closesWith_nil (by decide)

/-- A line that is dangerous in its middle only. -/
theorem ClosesWith.line {front : String} (hfront : Tame front) (h : ClosesWith s vs) :
    ClosesWith (front ++ s ++ "\n") vs := by
  have hend : ClosesWith "\n" [] := closesWith_nil (by decide)
  have hall := ((closesWith_nil hfront.closesIff).append h).append hend
  rwa [List.nil_append, List.append_nil] at hall

/-- A node that does not close early makes no difference. -/
theorem ClosesWith.concat {v : Visit} (h : ClosesWith s vs) (hv : v.closesEarly = false) :
    ClosesWith s (vs ++ [v]) := by
  refine ⟨h.first, h.closing.trans ?_⟩
  simp [or_and_right, exists_or, hv]

end Text

namespace Fragment

/-- The text of the fragment closes a block exactly if one of the nodes
does, wherever the fragment starts. -/
def ClosesWith (f : Fragment) (vs : List Visit) : Prop :=
  ∀ fresh, Text.ClosesWith (f fresh).text vs

theorem closesWith_empty : empty.ClosesWith [] :=
  fun _ => Text.closesWith_empty

theorem closesWith_write {s : String} (h : ClosesIff s False) : (write s).ClosesWith [] :=
  fun _ => closesWith_nil h

theorem closesWith_writeIfFresh {s : String} (h : ClosesIff s False) :
    (writeIfFresh s).ClosesWith [] := by
  intro fresh
  cases fresh with
  | true => exact closesWith_nil h
  | false => exact closesWith_empty true

variable {f g : Fragment} {vs ws : List Visit}

theorem ClosesWith.append (hf : f.ClosesWith vs) (hg : g.ClosesWith ws) :
    (f ++ g).ClosesWith (vs ++ ws) :=
  fun fresh => (hf fresh).append (hg ((f fresh).endsFresh fresh))

theorem ClosesWith.between (h : f.ClosesWith vs) {before after : String}
    (hbefore : ClosesIff before False) (hafter : ClosesIff after False) :
    (write before ++ f ++ write after).ClosesWith vs := by
  have hall := ((closesWith_write hbefore).append h).append (closesWith_write hafter)
  rwa [List.nil_append, List.append_nil] at hall

theorem ClosesWith.concat {v : Visit} (h : f.ClosesWith vs) (hv : v.closesEarly = false) :
    f.ClosesWith (vs ++ [v]) :=
  fun fresh => (h fresh).concat hv

/-- The label of a link, in its brackets: whether it closes early is up to
the text that follows the opening bracket. -/
theorem ClosesWith.label {v : Visit} (h : f.ClosesWith vs)
    (hv : v.closesEarly = true ↔ last? (f false).text = some ']') :
    (write "[" ++ f ++ write "]").ClosesWith (vs ++ [v]) := by
  intro fresh
  have hfresh : (write "[" fresh).endsFresh fresh = false := by decide +revert
  have htext : ((write "[" ++ f ++ write "]") fresh).text = "[" ++ (f false).text ++ "]" := by
    rw [← hfresh]
    rfl
  have hlabel := ClosesIff.bracketed (h false)
  rw [← htext] at hlabel
  refine ⟨hlabel.first, hlabel.closing.trans ?_⟩
  simp only [List.mem_append, List.mem_singleton, or_and_right, exists_or, exists_eq_left, hv]

end Fragment

open Fragment

/-! ## Written texts -/

theorem bracketless_reindent {body : String} (h : Bracketless body) (indent : Nat) :
    Bracketless (reindent indent body) := by
  have hlines := h.split '\n'
  unfold reindent
  split
  · decide
  · next first rest hsplit =>
    rw [hsplit] at hlines
    obtain ⟨hfirst, hrest⟩ := List.forall_mem_cons.mp hlines
    refine hfirst.append (bracketless_concat fun s hs => ?_)
    obtain ⟨line, hline, rfl⟩ := List.mem_map.mp hs
    have hdropped : Bracketless ((Text.after " " line).getD line) := by
      cases hafter : Text.after " " line with
      | none => exact hrest line hline
      | some dropped => exact (hrest line hline).after hafter
    unfold continuation
    simp only
    split
    · decide
    · exact Bracketless.append (Bracketless.append (by decide) (bracketless_spaces indent)) hdropped

/-- The brackets around a constant stand apart. -/
theorem closesIff_inlineLiteral {body : String} (h : Bracketless body) (place : Place)
    (isCode : Bool) : ClosesIff (inlineLiteral place isCode body) False := by
  unfold inlineLiteral
  split
  · exact (bracketless_reindent h.trim place.indent).tame.closesIff
  · split
    · next hconstant =>
      simp only [Bool.or_eq_true, decide_eq_true_eq] at hconstant
      rcases hconstant with (rfl | rfl) | rfl <;> decide
    · split
      · exact (Bracketless.append (Bracketless.append (by decide) h) (by decide)).tame.closesIff
      · exact h.tame.closesIff

theorem bracketless_fenceAttributes {attributes : List Attribute}
    (h : ∀ a ∈ attributes, ∀ s ∈ a.strings, Bracketless s) :
    Bracketless (fenceAttributes attributes) := by
  unfold fenceAttributes
  split
  · decide
  · refine Bracketless.append (Bracketless.append (by decide)
      (bracketless_join (by decide) fun s hs => ?_)) (by decide)
    obtain ⟨a, ha, rfl⟩ := List.mem_map.mp hs
    obtain ⟨hname, hvalue⟩ := List.forall_mem_cons.mp (h a ha)
    unfold fenceAttribute
    cases htext : a.value.text? with
    | none => exact hname
    | some value =>
      have hvalue : Bracketless value := hvalue value (by simp [htext])
      exact (hname.append (by decide)).append hvalue

theorem bracketless_openingTag {name : String} {attributes : List Attribute}
    (hname : Bracketless name) (h : ∀ a ∈ attributes, ∀ s ∈ a.strings, Bracketless s) :
    Bracketless (openingTag name attributes) := by
  refine Bracketless.append (Bracketless.append (by decide) hname)
    (bracketless_concat fun s hs => ?_)
  obtain ⟨a, ha, rfl⟩ := List.mem_map.mp hs
  obtain ⟨hname, hvalue⟩ := List.forall_mem_cons.mp (h a ha)
  refine Bracketless.append (Bracketless.append (by decide) hname) ?_
  cases hkind : a.value with
  | empty => decide
  | double value =>
    have hplain : Bracketless value := hvalue value (by simp [hkind, AttrValue.text?])
    exact (Bracketless.append (by decide) hplain).append (by decide)
  | single value =>
    have hplain : Bracketless value := hvalue value (by simp [hkind, AttrValue.text?])
    exact (Bracketless.append (by decide) hplain).append (by decide)
  | unquoted value =>
    have hplain : Bracketless value := hvalue value (by simp [hkind, AttrValue.text?])
    exact Bracketless.append (by decide) hplain

theorem bracketless_emphasis {name mark : String} {attributes : List Attribute}
    (h : emphasis? name attributes = some mark) : Bracketless mark := by
  unfold emphasis? at h
  split at h
  · split at h
    · cases h
      decide
    · split at h
      · cases h
        decide
      · cases h
  · cases h

/-! ## Trees -/

/-- Are the names of references tame? -/
def NamesTamely (resolve : Target → Option String) : Prop :=
  ∀ target name, resolve target = some name → Tame name

/-- The setting names references tamely, and the visits that stand for the
inherited comment close a block exactly if its text does. -/
structure Setting.Bracketed (s : Setting) (inherited : Place → List Visit) : Prop where
  names : NamesTamely s.resolve
  plain : ∀ place, ∀ v ∈ inherited place, v.node.Plain
  inherits : match s.inherited with
    | some comment => ∀ place, (comment place).ClosesWith (inherited place)
    | none => ∀ place, inherited place = []

section Inherits

variable {s : Setting} {inherited : Place → List Visit}
  (hnames : NamesTamely s.resolve)

include hnames

theorem Setting.bracketed_of_none (hnone : s.inherited = none)
    (hvisits : ∀ place, inherited place = []) : s.Bracketed inherited where
  names := hnames
  plain := by
    intro place v hv
    rw [hvisits place] at hv
    cases hv
  inherits := by rwa [hnone]

theorem Setting.bracketed_of_some {comment : Place → Fragment}
    (hsome : s.inherited = some comment) (hplain : ∀ place, ∀ v ∈ inherited place, v.node.Plain)
    (hcomment : ∀ place, (comment place).ClosesWith (inherited place)) :
    s.Bracketed inherited where
  names := hnames
  plain := hplain
  inherits := by rwa [hsome]

end Inherits

theorem closesWith_capture (c : Captures) : (capture c).ClosesWith [] :=
  fun _ => closesWith_empty true

theorem closesWith_report (s : Setting) (kind message : String) :
    (s.report kind message).ClosesWith [] :=
  fun _ => closesWith_empty true

section Nodes

variable {s : Setting} {inherited : Place → List Visit}

theorem Setting.Bracketed.reference (hs : s.Bracketed inherited) (kind : String) {r : Reference}
    (hr : Bracketless r.signature) : (s.reference kind r).ClosesWith [] := by
  have hsignature := closesWith_write hr.tame.closesIff
  unfold Setting.reference
  split
  · exact (closesWith_report s _ _).append hsignature
  · split
    · next name hname => exact closesWith_write (hs.names _ name hname).closesIff
    · exact (closesWith_report s _ _).append hsignature

theorem Setting.Bracketed.target (hs : s.Bracketed inherited) (kind : String) {r : Reference}
    (hr : Bracketless r.signature) :
    (write "[`" ++ s.reference kind r ++ write "`]").ClosesWith [] :=
  (hs.reference kind hr).between (by decide) (by decide)

theorem closesWith_element {owner : Owner} (place : Place) {name : String}
    {attributes : List Attribute} (selfClosing : Bool) {children : List DocNode}
    (hname : Bracketless name) (hattributes : ∀ a ∈ attributes, ∀ s ∈ a.strings, Bracketless s)
    (hchildren : ∀ inner, (renderAll s inner children).ClosesWith
      (visitsAll owner s inherited inner children)) :
    (element place name attributes selfClosing fun inner =>
        renderAll s inner children).ClosesWith
      ((DocNode.element name attributes children selfClosing).visitsWithin owner s inherited
        place) := by
  have hspaces := bracketless_spaces place.indent
  have hopening := bracketless_openingTag hname hattributes
  unfold element
  simp only [DocNode.visitsWithin, childPlace?]
  split
  · have hfence : Bracketless ("```lua" ++ fenceAttributes attributes ++ "\n"
        ++ Text.spaces place.indent) :=
      ((Bracketless.append (by decide) (bracketless_fenceAttributes hattributes)).append
        (by decide)).append hspaces
    have hend : Bracketless ("\n" ++ Text.spaces place.indent ++ "```") :=
      (Bracketless.append (by decide) hspaces).append (by decide)
    have hall := (((closesWith_writeIfFresh hspaces.tame.closesIff).append
      (closesWith_write hfence.tame.closesIff)).append (hchildren place.fence)).append
      (closesWith_write hend.tame.closesIff)
    simpa using hall
  · split
    · exact hchildren place
    · split
      · exact (closesWith_write (by decide)).append (hchildren place.listItem)
      · cases hmark : emphasis? name attributes with
        | some mark =>
          have hplain := (bracketless_emphasis hmark).tame.closesIff
          exact (hchildren place).between hplain hplain
        | none =>
          simp only [Option.isSome_none, Bool.false_eq_true, if_false]
          split
          · exact closesWith_write (hopening.append (by decide)).tame.closesIff
          · exact (hchildren place).between (hopening.append (by decide)).tame.closesIff
              ((Bracketless.append (by decide) hname).append (by decide)).tame.closesIff

theorem closesWith_blockTag {owner : Owner} (place : Place) {name : String}
    {content : List DocNode} (hname : Bracketless name)
    (hcontent : rendersContent name = true → (renderAll s place content).ClosesWith
      (visitsAll owner s inherited place content)) :
    (s.blockTag name (leadsWith "[" content) (renderAll s place content)).ClosesWith
      ((DocNode.blockTag name content).visitsWithin owner s inherited place) := by
  cases htag : Text.after vendorNamespace name with
  | none =>
    simp only [Setting.blockTag, DocNode.visitsWithin, rendersContent, htag, Bool.false_eq_true,
      if_false]
    exact closesWith_report s _ _
  | some tag =>
    simp only [Setting.blockTag, DocNode.visitsWithin, rendersContent, htag] at hcontent ⊢
    by_cases hmodule : tag = "module"
    · simpa [hmodule] using Fragment.closesWith_empty
    · have hopening : Bracketless ("@" ++ tag ++ if leadsWith "[" content then "" else " ") := by
        refine Bracketless.append (Bracketless.append (by decide) (hname.after htag)) ?_
        split <;> decide
      have hall := (closesWith_capture (tagCaptures tag)).append
        ((hcontent (by simpa using hmodule)).between hopening.tame.closesIff
          (by decide : ClosesIff "\n" False))
      simpa [hmodule, Fragment.append_assoc] using hall

theorem Setting.Bracketed.inheritDoc (hs : s.Bracketed inherited) (place : Place) :
    (DocNode.inheritDoc.render s place).ClosesWith (inherited place) := by
  have hcomment := hs.inherits
  simp only [DocNode.render]
  cases hinherited : s.inherited with
  | some comment =>
    simp only [hinherited] at hcomment ⊢
    exact hcomment place
  | none =>
    simp only [hinherited] at hcomment ⊢
    rw [hcomment place]
    exact closesWith_report s _ _

mutual

/-- By induction on the node. Only a link adds a condition of its own. -/
theorem Setting.Bracketed.render (hs : s.Bracketed inherited) (owner : Owner) (place : Place) :
    ∀ node : DocNode, node.Plain → (node.render s place).ClosesWith
      (node.visitsWithin owner s inherited place ++ [⟨owner, s, place, node⟩])
  | .text body, h => by
    have hbody : Bracketless body := h body (by simp [DocNode.strings])
    simp only [DocNode.render]
    exact (closesWith_write (bracketless_reindent hbody place.indent).tame.closesIff).concat rfl
  | .erroneous body, h => by
    have hbody : Bracketless body := h body (by simp [DocNode.strings])
    simp only [DocNode.render]
    exact (closesWith_write (bracketless_reindent hbody place.indent).tame.closesIff).concat rfl
  | .code body, h => by
    have hbody : Bracketless body := h body (by simp [DocNode.strings])
    simp only [DocNode.render]
    exact (closesWith_write (closesIff_inlineLiteral hbody place true)).concat rfl
  | .literal body, h => by
    have hbody : Bracketless body := h body (by simp [DocNode.strings])
    simp only [DocNode.render]
    exact (closesWith_write (closesIff_inlineLiteral hbody place false)).concat rfl
  | .reference r, h => by
    have hr : Bracketless r.signature := h r.signature (by simp [DocNode.strings])
    simp only [DocNode.render]
    exact (hs.reference "reference" hr).concat rfl
  | .link r [], h => by
    have hr : Bracketless r.signature := h r.signature (by simp [DocNode.strings])
    simp only [DocNode.render]
    exact (hs.target "link" hr).concat (by simp [Visit.closesEarly, ApiStubs.renderAll]; rfl)
  | .link r (first :: rest), h => by
    have hr : Bracketless r.signature := h r.signature (by simp [DocNode.strings])
    have hlabel := (hs.renderAll owner place (first :: rest) (h.inside rfl)).label
      (v := ⟨owner, s, place, .link r (first :: rest)⟩) (by simp [Visit.closesEarly])
    have hall := hlabel.append (hs.target "link" hr)
    simp only [DocNode.render]
    simpa [ApiStubs.renderAll, DocNode.visitsWithin, Fragment.append_assoc] using hall
  | .element name attributes children selfClosing, h => by
    have hname : Bracketless name := h name (by simp [DocNode.strings])
    have hattributes : ∀ a ∈ attributes, ∀ t ∈ a.strings, Bracketless t := by
      intro a ha t ht
      exact h t (by simp [DocNode.strings]; exact .inr (.inl ⟨a, ha, ht⟩))
    simp only [DocNode.render]
    exact (closesWith_element place selfClosing hname hattributes fun inner =>
      hs.renderAll owner inner children (h.inside rfl)).concat rfl
  | .entity name, h => by
    have hname : Bracketless name := h name (by simp [DocNode.strings])
    simp only [DocNode.render]
    exact (closesWith_write
      ((Bracketless.append (by decide) hname).append (by decide)).tame.closesIff).concat rfl
  | .inheritDoc, _ => (hs.inheritDoc place).concat rfl
  | .hidden, _ => by
    simp only [DocNode.render]
    exact (closesWith_write (by decide)).concat rfl
  | .param _ _, _ => by
    simp only [DocNode.render]
    exact (closesWith_capture _).concat rfl
  | .returns _, _ => by
    simp only [DocNode.render]
    exact (closesWith_capture _).concat rfl
  | .throws description, h => by
    simp only [DocNode.render, DocNode.visitsWithin]
    split
    · exact closesWith_empty.concat rfl
    · exact ((hs.renderAll owner place description (h.inside rfl)).between (by decide)
        (by decide)).concat rfl
  | .deprecated body, h => by
    simp only [DocNode.render]
    exact ((hs.renderAll owner place body (h.inside rfl)).between (by decide)
      (by decide)).concat rfl
  | .see [], _ => by
    simp only [DocNode.render]
    exact closesWith_empty.concat rfl
  | .see (first :: rest), h => by
    obtain ⟨hfirst, hrest⟩ := List.forall_mem_cons.mp (h.inside rfl)
    have hall := ((((closesWith_write (by decide : ClosesIff "@see " False)).append
      (hs.render owner place first hfirst)).append
      (closesWith_write (by decide : ClosesIff " " False))).append
      (hs.renderAll owner place rest hrest)).append
      (closesWith_write (by decide : ClosesIff "\n" False))
    simp only [DocNode.render]
    refine ClosesWith.concat ?_ rfl
    simpa [DocNode.visitsWithin, visitsAll] using hall
  | .blockTag name content, h => by
    have hname : Bracketless name := by
      by_cases hmodule : name = "cc.module"
      · rw [hmodule]
        decide
      · exact h name (by simp [DocNode.strings, hmodule])
    simp only [DocNode.render]
    refine (closesWith_blockTag place hname fun hrenders => ?_).concat rfl
    exact hs.renderAll owner place content
      (h.inside (isModuleTag_of_rendersContent hrenders content))
  | .unsupported, _ => by
    simp only [DocNode.render]
    exact (closesWith_report s _ _).concat rfl

theorem Setting.Bracketed.renderAll (hs : s.Bracketed inherited) (owner : Owner)
    (place : Place) : ∀ nodes : List DocNode, (∀ node ∈ nodes, node.Plain) →
      (ApiStubs.renderAll s place nodes).ClosesWith (visitsAll owner s inherited place nodes)
  | [], _ => by
    simp only [ApiStubs.renderAll]
    exact closesWith_empty
  | node :: nodes, h => by
    obtain ⟨hnode, hnodes⟩ := List.forall_mem_cons.mp h
    have hall := (hs.render owner place node hnode).append (hs.renderAll owner place nodes hnodes)
    simp only [ApiStubs.renderAll]
    simpa [visitsAll] using hall

end

theorem Setting.Bracketed.comment (hs : s.Bracketed inherited) (owner : Owner) (place : Place)
    {doc : DocComment} (hdoc : ∀ node ∈ doc.nodes, node.Plain) :
    (doc.render s place).ClosesWith (visitsAll owner s inherited place doc.nodes) := by
  obtain ⟨hbody, htags⟩ := List.forall_mem_append.mp hdoc
  have hall := ((hs.renderAll owner place doc.body hbody).append
    (closesWith_write (by decide : ClosesIff "\n" False))).append
    (hs.renderAll owner place doc.tags htags)
  simpa [DocComment.render, DocComment.nodes, visitsAll_append] using hall

theorem Setting.Bracketed.plain_visitsAll (hs : s.Bracketed inherited) (owner : Owner)
    (place : Place) {nodes : List DocNode} (h : ∀ node ∈ nodes, node.Plain) :
    ∀ v ∈ visitsAll owner s inherited place nodes, v.node.Plain := by
  intro v hv
  rcases visitsAll_cases (fun _ hparent => hparent.inside) nodes h hv with
    ⟨_, _, hplain⟩ | ⟨inner, hinner⟩
  · exact hplain
  · exact hs.plain inner v hinner

end Nodes

/-! ## Settings -/

/-- Everything that the methods of a program show is plain. -/
def Program.Plain (p : Program) : Prop :=
  ∀ m ∈ p.methods, ∀ s ∈ m.decl.strings, Bracketless s

theorem Program.Plain.doc {p : Program} (hp : p.Plain) {m : Method} (hm : m ∈ p.methods)
    {doc : DocComment} (hdoc : m.decl.doc = some doc) : ∀ node ∈ doc.nodes, node.Plain := by
  refine plain_of_stringsAll fun s hs => hp m hm s ?_
  simp [MethodDecl.strings, hdoc, DocComment.strings, hs]

section Settings

variable {p : Program} {resolve : Target → Option String}

/-- By induction on the methods that are not yet on the chain. -/
theorem bracketed_methodSetting (hp : p.Plain) (hnames : NamesTamely resolve) (m : Method)
    (chain : List MethodId) :
    (methodSetting p resolve m chain).Bracketed (inheritedVisits p resolve m chain) := by
  have hresolve : NamesTamely (methodSetting p resolve m chain).resolve := by
    rw [resolve_methodSetting]
    exact hnames
  cases hinherited : (methodSetting p resolve m chain).inherited with
  | none => exact Setting.bracketed_of_none hresolve hinherited (inheritedVisits_of_none hinherited)
  | some comment =>
    obtain ⟨ancestor, doc, hfound, hknown, rfl, hvisits⟩ :=
      inherited_methodSetting_cases hinherited
    have hmem := Program.mem_methods_of_inheritedDoc hfound
    have hdoc := hp.doc hmem (Program.doc_of_inheritedDoc hfound)
    have hfewer : p.unchained (ancestor.id :: chain) < p.unchained chain :=
      Program.unchained_cons_lt hmem hknown
    have hancestor := bracketed_methodSetting hp hnames ancestor (ancestor.id :: chain)
    refine Setting.bracketed_of_some hresolve hinherited ?_ ?_
    · intro place
      rw [hvisits place]
      exact hancestor.plain_visitsAll (.method ancestor) place hdoc
    · intro place
      rw [hvisits place]
      exact hancestor.comment (.method ancestor) place hdoc
termination_by p.unchained chain

theorem Owner.bracketed_setting (hp : p.Plain) (hnames : NamesTamely resolve) :
    ∀ owner : Owner,
      (owner.setting p resolve).Bracketed (owner.inheritedVisits p resolve)
  | .type _ => Setting.bracketed_of_none hnames rfl fun _ => rfl
  | .method m => bracketed_methodSetting hp hnames m [m.id]

/-- **A rendered comment closes its block exactly if a visited node does.** -/
theorem Owner.closesWith_rendered (hp : p.Plain) (hnames : NamesTamely resolve) {owner : Owner}
    (howner : ∀ node ∈ owner.nodes, node.Plain) :
    ClosesWith (owner.rendered p resolve).text (owner.visits p resolve owner.nodes) := by
  unfold Owner.rendered Owner.nodes at *
  cases hdoc : owner.doc with
  | none => exact Text.closesWith_empty
  | some doc =>
    rw [hdoc] at howner
    exact (owner.bracketed_setting hp hnames).comment owner {} howner true

theorem Owner.closesWith_description (hp : p.Plain) (hnames : NamesTamely resolve)
    (owner : Owner) {described : Option (List DocNode)}
    (h : ∀ nodes ∈ described, ∀ node ∈ nodes, node.Plain) :
    ClosesWith (renderDescription (owner.setting p resolve) described).text
      (described.toList.flatMap (owner.visits p resolve)) := by
  cases described with
  | none => exact Text.closesWith_empty
  | some nodes =>
    have hall := (closesWith_nil (by decide : ClosesIff " " False)).append
      ((owner.bracketed_setting hp hnames).renderAll owner {} nodes (h nodes rfl) true)
    show Text.ClosesWith _ (owner.visits p resolve nodes ++ [])
    rw [List.append_nil]
    exact hall

end Settings

end ApiStubs
