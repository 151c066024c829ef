/-
ApiStubs.Proofs.RenderInduction — one induction for what is said about
rendering.

Statements about rendered output relate the output of some nodes to the
nodes that are visited on the way, at a given place. Their proofs go the
same way: by induction on the tree, and at inherit markers by induction on
the methods that are not yet on the chain. This module does it once.
`RenderLaw` lists what such a relation has to satisfy: it holds of the
pieces that output is made of, it is kept by putting output together, by
fences and by list items, and it holds of the piece that a node adds when
all the nodes inside it are done (`Visit.piece`). Then it holds of
whatever is rendered for a declaration (`RenderLaw.renderAll_owner`,
`RenderLaw.comment_owner`).

The first law is that the output, besides its text, is what the visited
nodes add on their own (`sums_law`).
-/
import ApiStubs.Proofs.RenderVisits

namespace ApiStubs

open Fragment

/-- A reference comes to its name, or to a report and its signature. -/
theorem Setting.reference_cases (s : Setting) (kind : String) (r : Reference) :
    (s.referenceFault? r = none ∧ ∃ name, s.reference kind r = write name) ∨
    ∃ message, s.referenceFault? r = some message ∧
      s.reference kind r = s.report kind message ++ write r.signature := by
  unfold referenceFault? reference
  cases r.target with
  | none => exact .inr ⟨_, rfl, rfl⟩
  | some target =>
    simp only
    cases s.resolve target with
    | none => exact .inr ⟨_, rfl, rfl⟩
    | some name => exact .inl ⟨rfl, name, rfl⟩

/-- What a node adds after the nodes inside it: the target of a reference
or a link, the report that the node is at fault, or the tags that it
captures. -/
def Visit.piece (v : Visit) : Fragment :=
  match v.node with
  | .reference r => v.setting.reference "reference" r
  | .link r _ => write "[`" ++ v.setting.reference "link" r ++ write "`]"
  | _ =>
    match v.fault? with
    | some message => v.setting.report v.node.kindName message
    | none => capture v.captures

/-- The flags of a tag can be raised before its content or after it. -/
theorem capture_tagCaptures_append (tag : String) (f : Fragment) :
    capture (tagCaptures tag) ++ f = f ++ capture (tagCaptures tag) := by
  have hmerge : ∀ c : Captures, (tagCaptures tag).merge c = c.merge (tagCaptures tag) := by
    intro c
    simp [Captures.merge, tagCaptures, Bool.or_comm]
  funext fresh
  show Rendered.append { captures := tagCaptures tag } (f fresh)
    = Rendered.append (f fresh) { captures := tagCaptures tag }
  simp [Rendered.append, hmerge]

/-- A relation between output and visited nodes that can be proved along
the way of rendering. -/
structure RenderLaw (R : Place → Fragment → List Visit → Prop) : Prop where
  empty : ∀ place, R place Fragment.empty []
  write : ∀ place s, R place (Fragment.write s) []
  append : ∀ {place f g vs ws}, R place f vs → R place g ws → R place (f ++ g) (vs ++ ws)
  /-- The indentation before a fence. -/
  margin : ∀ place, R place (writeIfFresh (Text.spaces place.indent)) []
  fence : ∀ {place : Place} {f vs}, R place.fence f vs → R place f vs
  item : ∀ {place : Place} {f vs}, R place.listItem f vs → R place (Fragment.write " - " ++ f) vs
  piece : ∀ v : Visit, R v.place v.piece [v]

/-- The relation holds of the inherited comment and the nodes visited in
it. -/
def Setting.Keeps (s : Setting) (R : Place → Fragment → List Visit → Prop)
    (inherited : Place → List Visit) : Prop :=
  match s.inherited with
  | some comment => ∀ place, R place (comment place) (inherited place)
  | none => ∀ place, inherited place = []

namespace RenderLaw

variable {R : Place → Fragment → List Visit → Prop} {s : Setting}
  {inherited : Place → List Visit} {owner : Owner}

theorem between (law : RenderLaw R) {place : Place} {f : Fragment} {vs : List Visit}
    (h : R place f vs) (before after : String) :
    R place (Fragment.write before ++ f ++ Fragment.write after) vs := by
  have hall := law.append (law.append (law.write place before) h) (law.write place after)
  rwa [List.nil_append, List.append_nil] at hall

/-- A node that adds nothing after the nodes inside it. -/
theorem concat (law : RenderLaw R) {place : Place} {node : DocNode} {f : Fragment}
    {vs : List Visit} (h : R place f vs)
    (hnode : Visit.piece ⟨owner, s, place, node⟩ = Fragment.empty) :
    R place f (vs ++ [⟨owner, s, place, node⟩]) := by
  have hall := law.append h (law.piece ⟨owner, s, place, node⟩)
  rwa [hnode, Fragment.append_empty] at hall

/-! ## Elements and tags -/

theorem element (law : RenderLaw R) (place : Place) (name : String) (attributes : List Attribute)
    (selfClosing : Bool) {children : List DocNode}
    (hchildren : ∀ inner, R inner (renderAll s inner children)
      (visitsAll owner s inherited inner children)) :
    R place (ApiStubs.element place name attributes selfClosing fun inner =>
        renderAll s inner children)
      ((DocNode.element name attributes children selfClosing).visitsWithin owner s inherited
        place) := by
  unfold ApiStubs.element
  simp only [DocNode.visitsWithin, childPlace?]
  split
  · have hopening := law.append (law.margin place)
      (law.write place ("```lua" ++ fenceAttributes attributes ++ "\n" ++ Text.spaces place.indent))
    have hall := law.append (law.append hopening (law.fence (hchildren place.fence)))
      (law.write place ("\n" ++ Text.spaces place.indent ++ "```"))
    simpa using hall
  · split
    · exact hchildren place
    · split
      · exact law.item (hchildren place.listItem)
      · cases emphasis? name attributes with
        | some mark => exact law.between (hchildren place) _ _
        | none =>
          simp only [Option.isSome_none, Bool.false_eq_true, if_false]
          split
          · exact law.write place _
          · exact law.between (hchildren place) _ _

theorem blockTag (law : RenderLaw R) (place : Place) (name : String) {content : List DocNode}
    (hcontent : R place (renderAll s place content) (visitsAll owner s inherited place content)) :
    R place (s.blockTag name (leadsWith "[" content) (renderAll s place content))
      ((DocNode.blockTag name content).visitsWithin owner s inherited place
        ++ [⟨owner, s, place, .blockTag name content⟩]) := by
  have hpiece := law.piece ⟨owner, s, place, .blockTag name content⟩
  cases htag : Text.after vendorNamespace name with
  | none =>
    simp only [Visit.piece, Visit.fault?, htag, Option.isSome_none, Bool.false_eq_true,
      if_false] at hpiece
    simpa [Setting.blockTag, DocNode.visitsWithin, rendersContent, htag, DocNode.kindName]
      using hpiece
  | some tag =>
    simp only [Visit.piece, Visit.fault?, Visit.captures, htag, Option.isSome_some, if_true,
      Option.map_some, Option.getD_some] at hpiece
    by_cases hmodule : tag = "module"
    · have hflags : tagCaptures "module" = {} := by simp [tagCaptures]
      have hnone : capture (tagCaptures "module") = Fragment.empty := by rw [hflags]; rfl
      simpa [Setting.blockTag, DocNode.visitsWithin, rendersContent, htag, hmodule, hnone]
        using hpiece
    · have hall := law.append (law.between hcontent
        ("@" ++ tag ++ if leadsWith "[" content then "" else " ") "\n") hpiece
      rw [← capture_tagCaptures_append] at hall
      simpa [Setting.blockTag, DocNode.visitsWithin, rendersContent, htag, hmodule,
        Fragment.append_assoc] using hall

theorem inheritDoc (law : RenderLaw R) (hs : s.Keeps R inherited) (owner : Owner)
    (place : Place) :
    R place (DocNode.inheritDoc.render s place)
      (inherited place ++ [⟨owner, s, place, .inheritDoc⟩]) := by
  have hpiece := law.piece ⟨owner, s, place, .inheritDoc⟩
  unfold Setting.Keeps at hs
  simp only [DocNode.render]
  cases hinherited : s.inherited with
  | some comment =>
    simp only [hinherited] at hs ⊢
    refine law.concat (hs place) ?_
    simp only [Visit.piece, Visit.fault?, hinherited, Option.isSome_some, if_true]
    rfl
  | none =>
    simp only [hinherited] at hs ⊢
    rw [hs place, List.nil_append]
    simpa [Visit.piece, Visit.fault?, hinherited, DocNode.kindName] using hpiece

/-! ## Trees -/

mutual

theorem render (law : RenderLaw R) (hs : s.Keeps R inherited) (owner : Owner) (place : Place) :
    ∀ node : DocNode, R place (node.render s place)
      (node.visitsWithin owner s inherited place ++ [⟨owner, s, place, node⟩])
  | .text _ => by simp only [DocNode.render]; exact law.concat (law.write place _) rfl
  | .erroneous _ => by simp only [DocNode.render]; exact law.concat (law.write place _) rfl
  | .code _ => by simp only [DocNode.render]; exact law.concat (law.write place _) rfl
  | .literal _ => by simp only [DocNode.render]; exact law.concat (law.write place _) rfl
  | .entity _ => by simp only [DocNode.render]; exact law.concat (law.write place _) rfl
  | .hidden => by simp only [DocNode.render]; exact law.concat (law.write place _) rfl
  | .param name description => by
    simp only [DocNode.render]
    exact law.piece ⟨owner, s, place, .param name description⟩
  | .returns description => by
    simp only [DocNode.render]
    exact law.piece ⟨owner, s, place, .returns description⟩
  | .reference r => by
    simp only [DocNode.render]
    exact law.piece ⟨owner, s, place, .reference r⟩
  | .link r [] => by
    simp only [DocNode.render]
    exact law.piece ⟨owner, s, place, .link r []⟩
  | .link r (first :: rest) => by
    simp only [DocNode.render]
    have hlabel := law.append (law.append (law.append (law.write place "[")
      (law.render hs owner place first)) (law.renderAll hs owner place rest))
      (law.write place "]")
    have hall := law.append hlabel (law.piece ⟨owner, s, place, .link r (first :: rest)⟩)
    simpa [DocNode.visitsWithin, visitsAll, Visit.piece, Fragment.append_assoc] using hall
  | .element name attributes children selfClosing => by
    simp only [DocNode.render]
    refine law.concat
      (law.element place name attributes selfClosing fun inner => ?_) rfl
    exact law.renderAll hs owner inner children
  | .inheritDoc => law.inheritDoc hs owner place
  | .throws description => by
    refine law.concat ?_ rfl
    simp only [DocNode.render, DocNode.visitsWithin]
    split
    · exact law.empty place
    · exact law.between (law.renderAll hs owner place description) _ _
  | .deprecated body => by
    refine law.concat ?_ rfl
    simp only [DocNode.render, DocNode.visitsWithin]
    exact law.between (law.renderAll hs owner place body) _ _
  | .see [] => by
    simp only [DocNode.render]
    exact law.concat (law.empty place) rfl
  | .see (first :: rest) => by
    refine law.concat ?_ rfl
    have hall := law.append (law.append (law.append (law.append (law.write place "@see ")
      (law.render hs owner place first)) (law.write place " "))
      (law.renderAll hs owner place rest)) (law.write place "\n")
    simpa [DocNode.render, DocNode.visitsWithin, visitsAll] using hall
  | .blockTag name content => by
    simp only [DocNode.render]
    exact law.blockTag place name (law.renderAll hs owner place content)
  | .unsupported => by
    simp only [DocNode.render]
    exact law.piece ⟨owner, s, place, .unsupported⟩

theorem renderAll (law : RenderLaw R) (hs : s.Keeps R inherited) (owner : Owner) (place : Place) :
    ∀ nodes : List DocNode, R place (ApiStubs.renderAll s place nodes)
      (visitsAll owner s inherited place nodes)
  | [] => by simp only [ApiStubs.renderAll, visitsAll]; exact law.empty place
  | node :: nodes => by
    simp only [ApiStubs.renderAll]
    have hall := law.append (law.render hs owner place node) (law.renderAll hs owner place nodes)
    simpa [visitsAll] using hall

end

theorem comment (law : RenderLaw R) (hs : s.Keeps R inherited) (owner : Owner) (place : Place)
    (doc : DocComment) :
    R place (doc.render s place) (visitsAll owner s inherited place doc.nodes) := by
  have hall := law.append (law.append (law.renderAll hs owner place doc.body)
    (law.write place "\n")) (law.renderAll hs owner place doc.tags)
  simpa [DocComment.render, DocComment.nodes, visitsAll_append] using hall

/-! ## Declarations -/

/-- By induction on the methods that are not yet on the chain. -/
theorem keeps_methodSetting (law : RenderLaw R) (p : Program) (resolve : Target → Option String)
    (m : Method) (chain : List MethodId) :
    (methodSetting p resolve m chain).Keeps R (inheritedVisits p resolve m chain) := by
  unfold Setting.Keeps
  cases hinherited : (methodSetting p resolve m chain).inherited with
  | none => exact inheritedVisits_of_none hinherited
  | some comment =>
    obtain ⟨ancestor, doc, hfound, hknown, rfl, hvisits⟩ :=
      inherited_methodSetting_cases hinherited
    have hfewer : p.unchained (ancestor.id :: chain) < p.unchained chain :=
      Program.unchained_cons_lt (Program.mem_methods_of_inheritedDoc hfound) hknown
    intro place
    rw [hvisits place]
    exact law.comment (law.keeps_methodSetting p resolve ancestor (ancestor.id :: chain))
      (.method ancestor) place doc
termination_by p.unchained chain

theorem keeps_setting (law : RenderLaw R) (p : Program) (resolve : Target → Option String) :
    ∀ owner : Owner, (owner.setting p resolve).Keeps R (owner.inheritedVisits p resolve)
  | .type _ => fun _ => rfl
  | .method m => law.keeps_methodSetting p resolve m [m.id]

/-- **A law of rendering holds of all that is rendered for a
declaration.** -/
theorem renderAll_owner (law : RenderLaw R) (p : Program) (resolve : Target → Option String)
    (owner : Owner) (place : Place) (nodes : List DocNode) :
    R place (ApiStubs.renderAll (owner.setting p resolve) place nodes)
      (visitsAll owner (owner.setting p resolve) (owner.inheritedVisits p resolve) place nodes) :=
  law.renderAll (law.keeps_setting p resolve owner) owner place nodes

theorem comment_owner (law : RenderLaw R) (p : Program) (resolve : Target → Option String)
    (owner : Owner) (doc : DocComment) :
    R {} (doc.render (owner.setting p resolve) {}) (owner.visits p resolve doc.nodes) :=
  law.comment (law.keeps_setting p resolve owner) owner {} doc

end RenderLaw

/-! ## What the visited nodes add -/

namespace Fragment

/-- Besides its text, the fragment is what the nodes add. -/
def Sums (f : Fragment) (vs : List Visit) : Prop :=
  ∀ fresh, (f fresh).silent = Visit.total vs

theorem sums_write (s : String) : (write s).Sums [] := fun _ => rfl

theorem Sums.append {f g : Fragment} {vs ws : List Visit} (hf : f.Sums vs) (hg : g.Sums ws) :
    (f ++ g).Sums (vs ++ ws) := by
  intro fresh
  rw [Visit.total_append, ← hf fresh, ← hg ((f fresh).endsFresh fresh)]
  rfl

end Fragment

namespace Visit

theorem sums_of_own {v : Visit} {f : Fragment} (h : ∀ fresh, (f fresh).silent = v.own) :
    f.Sums [v] := by
  intro fresh
  rw [total_cons, total_nil, Rendered.append_empty, h]

/-- Nodes at fault capture nothing. -/
theorem captures_of_fault {v : Visit} {message : String} (h : v.fault? = some message) :
    v.captures = {} := by
  obtain ⟨owner, s, place, node⟩ := v
  cases node with
  | blockTag name content =>
    cases htag : Text.after vendorNamespace name with
    | some tag => simp [fault?, htag] at h
    | none => simp [captures, htag]
  | param name description => cases h
  | returns description => cases h
  | _ => rfl

/-- A reference in a node that captures nothing and whose fault is that of
the reference. -/
theorem sums_reference {v : Visit} {kind : String} {r : Reference}
    (hkind : v.node.kindName = kind) (hfault : v.fault? = v.setting.referenceFault? r)
    (hcaptures : v.captures = {}) : (v.setting.reference kind r).Sums [v] := by
  subst hkind
  refine sums_of_own fun fresh => ?_
  obtain ⟨hnone, name, hname⟩ | ⟨message, hsome, hreport⟩ :=
    v.setting.reference_cases v.node.kindName r
  · rw [hname, own, hfault, hnone, hcaptures]
    rfl
  · rw [hreport, own, hfault, hsome, hcaptures]
    rfl

theorem sums_piece (v : Visit) : v.piece.Sums [v] := by
  unfold piece
  split
  · next r hnode =>
    exact sums_reference (by rw [hnode]; rfl) (by simp [fault?, hnode]) (by simp [captures, hnode])
  · next r label hnode =>
    have hreference : (v.setting.reference "link" r).Sums [v] :=
      sums_reference (by rw [hnode]; rfl) (by simp [fault?, hnode]) (by simp [captures, hnode])
    exact ((sums_write "[`").append hreference).append (sums_write "`]")
  · split
    · next message hfault =>
      refine sums_of_own fun fresh => ?_
      rw [own, hfault, captures_of_fault hfault]
      rfl
    · next hfault =>
      refine sums_of_own fun fresh => ?_
      rw [own, hfault]
      rfl

end Visit

/-- **Besides its text, output is what the visited nodes add.** -/
theorem sums_law : RenderLaw fun _ f vs => f.Sums vs where
  empty _ := fun _ => rfl
  write _ s := sums_write s
  append := Sums.append
  margin _ := fun _ => rfl
  fence h := h
  item h := (sums_write " - ").append h
  piece v := v.sums_piece

theorem Owner.silent_renderNodes (p : Program) (resolve : Target → Option String) (owner : Owner)
    (nodes : List DocNode) :
    (renderNodes (owner.setting p resolve) nodes).silent
      = Visit.total (owner.visits p resolve nodes) :=
  sums_law.renderAll_owner p resolve owner {} nodes true

theorem Owner.silent_renderComment (p : Program) (resolve : Target → Option String)
    (owner : Owner) (doc : DocComment) :
    (renderComment (owner.setting p resolve) doc).silent
      = Visit.total (owner.visits p resolve doc.nodes) :=
  sums_law.comment_owner p resolve owner doc true

end ApiStubs
