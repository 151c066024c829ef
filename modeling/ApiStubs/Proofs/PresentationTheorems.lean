/-
ApiStubs.Proofs.PresentationTheorems — how a document is written does not
matter.

There are four ways to write an object differently (`Reworded`): its members
in another order, with members that nobody knows, without a field that holds
its default, or with one. Any number of them, anywhere in a document, make no
difference. A node of an unknown kind makes one, but only in its own place.

Members that nobody knows are not quite all that are neither a field of the
value at hand nor its tag. An attribute's value that is empty has no text,
and still may not be given one: `text` belongs to the format of all attribute
values (`Page.empty_refuses_text`).
-/
import Mathlib.Logic.Relation
import ApiStubs.Proofs.ChangeTheorems

namespace ApiStubs

open Json (membersNamed)

/-! ## Ways to write the same -/

/-- Is the default of the field read of the value? -/
def Slot.HoldsDefault (slot : Slot) (room : Nat) (j : Json) : Prop :=
  ∃ value, slot.default = some value ∧ slot.form.decode room j = some value

/-- One object has become another that is written in another way. -/
inductive Reworded : Form → Nat → Json → Json → Prop where
  /-- Its members stand in another order. -/
  | permute {form : Form} {layout : Layout form.Value} {room : Nat}
      {members members' : List Json.Member}
      (hlayout : form.layout? (.object members) = some layout) (h : members.Perm members') :
    Reworded form (room + 1) (.object members) (.object members')
  /-- There is one more member, which is neither a field nor the tag. In a
  tagged value all that is written is within the limits. -/
  | add {form : Form} {layout : Layout form.Value} {room : Nat} {members : List Json.Member}
      {name : String} {j : Json} (hlayout : form.layout? (.object members) = some layout)
      (hname : name ∉ layout.names) (htag : form.isTagged = true → name ≠ "kind")
      (hfits : form.isOpen = false → j.fits room = true) :
    Reworded form (room + 1) (.object members) (.object ((some name, j) :: members))
  /-- A field that holds its default is left out. -/
  | drop {form : Form} {layout : Layout form.Value} {room : Nat} {members : List Json.Member}
      {j : Json} (slot : Slot)
      (hlayout : form.layout? (.object ((some slot.name, j) :: members)) = some layout)
      (hslot : slot ∈ layout.slots) (hdefault : slot.HoldsDefault room j) :
    Reworded form (room + 1) (.object ((some slot.name, j) :: members)) (.object members)
  /-- A field that was left out is written, with its default. -/
  | supply {form : Form} {layout : Layout form.Value} {room : Nat} {members : List Json.Member}
      (slot : Slot) {value : slot.form.Value}
      (hlayout : form.layout? (.object members) = some layout) (hslot : slot ∈ layout.slots)
      (habsent : membersNamed members slot.name = [])
      (hdefault : slot.default = some value) :
    Reworded form (room + 1) (.object members)
      (.object ((some slot.name, slot.form.writtenDefault) :: members))
  /-- The same, with the default written in another way. -/
  | supplyLike {form : Form} {layout : Layout form.Value} {room : Nat}
      {members : List Json.Member} {j : Json} (slot : Slot)
      (hlayout : form.layout? (.object members) = some layout) (hslot : slot ∈ layout.slots)
      (habsent : membersNamed members slot.name = []) (hdefault : slot.HoldsDefault room j)
      (hfits : form.isOpen = false → j.fits room = true) :
    Reworded form (room + 1) (.object members) (.object ((some slot.name, j) :: members))

theorem Builder.follows_self {α : Type}
    {change : (slot : Slot) → slot.form.Value → slot.form.Value} :
    {slots : List Slot} → (build : Builder α slots) →
    (∀ slot ∈ slots, ∀ value, change slot value = value) →
      Builder.Follows change id build build
  | [], result, _ => (congrFun Option.map_id result).symm
  | slot :: _, build, h => fun value => by
    rw [h slot List.mem_cons_self value]
    exact follows_self (build value) fun other hother => h other (List.mem_cons_of_mem _ hother)

/-- Nothing changes. -/
def Edit.keep : Edit where
  on _ _ x := x
  on_item _ index _ xs := (List.modify_id index xs).symm
  on_given _ _ _ := rfl
  on_field _ _ _ _ := Builder.follows_self _ fun _ _ _ => ite_self _

section

variable {form : Form} {layout : Layout form.Value} {room : Nat} {members : List Json.Member}
  {slot : Slot} {j : Json}

/-- A field that holds its default is read as if it were absent. -/
theorem Slot.HoldsDefault.readFrom_eq (h : slot.HoldsDefault room j) :
    slot.readFrom (Form.inside (room + 1)) (some j)
      = slot.readFrom (Form.inside (room + 1)) none := by
  obtain ⟨value, hvalue, hdecode⟩ := h
  exact hdecode.trans hvalue.symm

theorem kept_drop (hlayout : form.layout? (.object ((some slot.name, j) :: members)) = some layout)
    (hslot : slot ∈ layout.slots) (hdefault : slot.HoldsDefault room j) :
    Kept .keep form (room + 1) .here (.object ((some slot.name, j) :: members))
      (.object members) := by
  refine kept_of_agree_field hlayout hslot (Json.agree_drop slot.name j members)
    (fun _ hfits => ((Json.fits_cons_member ..).mp hfits).2)
    (Builder.follows_self _ fun _ _ _ => rfl) (fun _ _ _ => rfl) ?_
  intro hlength
  simp only [Json.membersNamed_cons, if_true, List.length_cons] at hlength ⊢
  have hnone : membersNamed members slot.name = [] := List.eq_nil_of_length_eq_zero (by omega)
  rw [hnone]
  exact ⟨Nat.zero_le 1, fun value hvalue => hdefault.readFrom_eq.symm.trans hvalue⟩

theorem kept_supply (hlayout : form.layout? (.object members) = some layout)
    (hslot : slot ∈ layout.slots)
    (habsent : membersNamed members slot.name = []) (hdefault : slot.HoldsDefault room j)
    (hfits : form.isOpen = false → j.fits room = true) :
    Kept .keep form (room + 1) .here (.object members)
      (.object ((some slot.name, j) :: members)) := by
  refine kept_of_agree_field hlayout hslot (Json.agree_add slot.name j members)
    (fun hopen hmembers => (Json.fits_cons_member ..).mpr ⟨hfits hopen, hmembers⟩)
    (Builder.follows_self _ fun _ _ _ => rfl) (fun _ _ _ => rfl) ?_
  intro _
  simp only [Json.membersNamed_cons, if_true, habsent]
  exact ⟨Nat.le_refl 1, fun value hvalue => hdefault.readFrom_eq.trans hvalue⟩

/-- A way of writing an object makes no difference to what it decodes to. -/
theorem Reworded.kept {j' : Json} (h : Reworded form room j j') (hlevels : form.Levels room) :
    Kept .keep form room .here j j' := by
  cases h with
  | permute hlayout hperm =>
    exact kept_of_agree hlayout (Json.agree_of_perm hperm) (fun _ => nofun)
      (fun _ => Json.fits_of_perm hperm) (Builder.follows_self _ fun _ _ _ => rfl)
      (fun _ _ _ _ => rfl) (fun _ _ => nofun)
  | add hlayout hname htag hfits =>
    refine kept_of_agree hlayout (Json.agree_add _ _ _) ?_
      (fun hopen hmembers => (Json.fits_cons_member ..).mpr ⟨hfits hopen, hmembers⟩)
      (Builder.follows_self _ fun _ _ _ => rfl) (fun _ _ _ _ => rfl) ?_
    · exact fun htagged heq => htag htagged (Option.some.inj heq)
    · intro slot hslot heq
      exact absurd (Option.some.inj heq ▸ List.mem_map_of_mem hslot) hname
  | drop slot hlayout hslot hdefault => exact kept_drop hlayout hslot hdefault
  | supply slot hlayout hslot habsent hdefault =>
    obtain ⟨hdecode, hfits⟩ := (Form.wellLaid hlayout).defaults hlevels slot hslot _ hdefault
    exact kept_supply hlayout hslot habsent ⟨_, hdefault, hdecode⟩ fun _ => hfits
  | supplyLike slot hlayout hslot habsent hdefault hfits =>
    exact kept_supply hlayout hslot habsent hdefault hfits

end

/-! ## A node of an unknown kind -/

/-- Does something to the item that an address leads into. -/
def Address.onItem {α : Type} (edit : Address → α → α) : Address → List α → List α
  | .item index rest, xs => xs.modify index (edit rest)
  | _, xs => xs

/-- Does something to the nodes in the field of this name. -/
def DocNode.onNodes (name : String) (edit : List DocNode → List DocNode) : DocNode → DocNode
  | .link target label => .link target (if name = "label" then edit label else label)
  | .element tag attributes children selfClosing =>
    .element tag attributes (if name = "children" then edit children else children) selfClosing
  | .param tag description =>
    .param tag (if name = "description" then edit description else description)
  | .returns description =>
    .returns (if name = "description" then edit description else description)
  | .throws description =>
    .throws (if name = "description" then edit description else description)
  | .deprecated body => .deprecated (if name = "body" then edit body else body)
  | .see nodes => .see (if name = "reference" then edit nodes else nodes)
  | .blockTag tag content => .blockTag tag (if name = "content" then edit content else content)
  | node => node

/-- The tree with an unsupported node at an address. -/
def DocNode.blank : Address → DocNode → DocNode
  | .here, _ => .unsupported
  | .field name (.item index rest), node =>
    node.onNodes name fun nodes => nodes.modify index (DocNode.blank rest)
  | _, node => node

def DocComment.blank : Address → DocComment → DocComment
  | .field "body" rest, comment => { comment with body := rest.onItem DocNode.blank comment.body }
  | .field "tags" rest, comment => { comment with tags := rest.onItem DocNode.blank comment.tags }
  | _, comment => comment

def MethodDecl.blank : Address → MethodDecl → MethodDecl
  | .field "doc" rest, method => { method with doc := method.doc.map (DocComment.blank rest) }
  | _, method => method

def TypeDecl.blank : Address → TypeDecl → TypeDecl
  | .field "doc" rest, type => { type with doc := type.doc.map (DocComment.blank rest) }
  | .field "methods" rest, type =>
    { type with methods := rest.onItem MethodDecl.blank type.methods }
  | _, type => type

def Model.blank : Address → Model → Model
  | .field "types" rest, model => { model with types := rest.onItem TypeDecl.blank model.types }
  | _, model => model

/-- Can there be nodes in a value of this form? -/
def Form.holdsNodes : Form → Bool
  | .model | .typeDecl | .methodDecl | .comment | .node _ => true
  | .list items => items.holdsNodes
  | .nullable value => value.holdsNodes
  | _ => false

/-- The same for values of all forms. -/
def Form.blank : (form : Form) → Address → form.Value → form.Value
  | .list items, address, xs => if items.holdsNodes then address.onItem items.blank xs else xs
  | .nullable value, address, x =>
    if value.holdsNodes then Option.map (value.blank address) x else x
  | .model, address, x => Model.blank address x
  | .typeDecl, address, x => TypeDecl.blank address x
  | .methodDecl, address, x => MethodDecl.blank address x
  | .comment, address, x => DocComment.blank address x
  | .node _, address, x => DocNode.blank address x
  | _, _, x => x

theorem Form.blank_of_not_holdsNodes {form : Form} (h : form.holdsNodes = false)
    (address : Address) (x : form.Value) : form.blank address x = x := by
  cases form with
  | list items => exact if_neg (Bool.eq_false_iff.mp h)
  | nullable value => exact if_neg (Bool.eq_false_iff.mp h)
  | model | typeDecl | methodDecl | comment | node place => cases h
  | _ => rfl

theorem DocNode.blank_field (name : String) (rest : Address) :
    DocNode.blank (.field name rest) = DocNode.onNodes name (rest.onItem DocNode.blank) := by
  funext node
  cases rest with
  | item index rest => rfl
  | here => cases node <;> simp [DocNode.blank, onNodes, Address.onItem]
  | field name rest => cases node <;> simp [DocNode.blank, onNodes, Address.onItem]

/-- What becomes of the fields if one of them has an unsupported node somewhere. -/
def Slot.blank (name : String) (address : Address) (slot : Slot) (x : slot.form.Value) :
    slot.form.Value :=
  if slot.name = name then slot.form.blank address x else x

section

variable (address : Address)

theorem follows_model : ∀ slot ∈ Model.layout.slots,
    Builder.Follows (Slot.blank slot.name address) (Model.blank (.field slot.name address))
      Model.layout.build Model.layout.build := by
  simp only [Model.layout, List.forall_mem_cons, List.not_mem_nil, false_implies, implies_true,
    and_true]
  exact fun _ => rfl

theorem follows_typeDecl : ∀ slot ∈ TypeDecl.layout.slots,
    Builder.Follows (Slot.blank slot.name address) (TypeDecl.blank (.field slot.name address))
      TypeDecl.layout.build TypeDecl.layout.build := by
  simp only [TypeDecl.layout, List.forall_mem_cons, List.not_mem_nil, false_implies, implies_true,
    and_true]
  and_intros <;> exact fun _ _ _ _ _ _ _ _ => rfl

theorem follows_methodDecl : ∀ slot ∈ MethodDecl.layout.slots,
    Builder.Follows (Slot.blank slot.name address) (MethodDecl.blank (.field slot.name address))
      MethodDecl.layout.build MethodDecl.layout.build := by
  simp only [MethodDecl.layout, List.forall_mem_cons, List.not_mem_nil, false_implies,
    implies_true, and_true]
  and_intros <;> exact fun _ _ _ _ _ _ _ _ => rfl

theorem follows_comment : ∀ slot ∈ DocComment.layout.slots,
    Builder.Follows (Slot.blank slot.name address) (DocComment.blank (.field slot.name address))
      DocComment.layout.build DocComment.layout.build := by
  simp only [DocComment.layout, List.forall_mem_cons, List.not_mem_nil, false_implies,
    implies_true, and_true]
  and_intros <;> exact fun _ _ => rfl

theorem follows_node (kind : DocNode.Kind) : ∀ slot ∈ kind.layout.slots,
    Builder.Follows (Slot.blank slot.name address) (DocNode.blank (.field slot.name address))
      kind.layout.build kind.layout.build := by
  simp only [DocNode.blank_field]
  cases kind <;>
    simp only [DocNode.Kind.layout, Reference.slots, List.forall_mem_cons, List.not_mem_nil,
      false_implies, implies_true, and_true]
  case text | erroneous | code | literal | entity | returns | throws | deprecated | see =>
    exact fun _ => rfl
  case reference | link | param | blockTag => and_intros <;> exact fun _ _ => rfl
  case element => and_intros <;> exact fun _ _ _ _ => rfl

end

/-- Where there are no nodes to be found nothing changes. -/
theorem follows_of_not_holdsNodes {α : Type} {layout : Layout α} (name : String)
    (address : Address) (h : ∀ slot ∈ layout.slots, slot.form.holdsNodes = false) :
    Builder.Follows (Slot.blank name address) id layout.build layout.build := by
  refine Builder.follows_self _ fun slot hslot value => ?_
  rw [Slot.blank, Form.blank_of_not_holdsNodes (h slot hslot), ite_self]

/-- A node becomes an unsupported one. -/
def Edit.blank : Edit where
  on := Form.blank
  on_item items index address xs := by
    by_cases h : items.holdsNodes = true
    · exact if_pos h
    · have hid : items.blank address = id :=
        funext (Form.blank_of_not_holdsNodes (Bool.eq_false_iff.mpr h) address)
      rw [hid, List.modify_id]
      exact if_neg h
  on_given value address x := by
    by_cases h : value.holdsNodes = true
    · exact if_pos h
    · rw [Form.blank_of_not_holdsNodes (Bool.eq_false_iff.mpr h)]
      exact if_neg h
  on_field hlayout slot hslot address := by
    cases Form.hasLayout hlayout with
    | model => exact follows_model address slot hslot
    | typeDecl => exact follows_typeDecl address slot hslot
    | methodDecl => exact follows_methodDecl address slot hslot
    | comment => exact follows_comment address slot hslot
    | node place kind => exact follows_node address kind slot hslot
    | valueType place kind =>
      refine follows_of_not_holdsNodes slot.name address ?_
      cases kind <;> simp [ValueType.Kind.layout, Form.holdsNodes]
    | target place kind =>
      refine follows_of_not_holdsNodes slot.name address ?_
      cases kind <;> simp [Target.Kind.layout, Form.holdsNodes]
    | marker | param | source | reference | attr | attrValue =>
      refine follows_of_not_holdsNodes slot.name address ?_
      simp [Marker.layout, Param.layout, SourcePos.layout, Reference.layout, Reference.slots,
        Attribute.layout, AttrValue.layout, Form.holdsNodes]

/-- An object that stands for a node has become one of an unknown kind: its
tag is another, or it is another object altogether. -/
inductive UnknownKind : Form → Nat → Json → Json → Prop where
  | rename {place : Json.Place} {room : Nat} {before after : List Json.Member} {tag : Json}
      {kind : String} (hkind : kind ∉ DocNode.Kind.tags.known.map (·.1)) :
    UnknownKind (.node place) (room + 1) (.object (before ++ (some "kind", tag) :: after))
      (.object (before ++ (some "kind", .text (some kind)) :: after))
  | replace {place : Json.Place} {room : Nat} {members members' : List Json.Member} {kind : String}
      (hkind : kind ∉ DocNode.Kind.tags.known.map (·.1))
      (htag : membersNamed members' "kind" = [.text (some kind)])
      (hfits : (Json.object members').fits (room + 1) = true) :
    UnknownKind (.node place) (room + 1) (.object members) (.object members')

namespace DocNode

variable {place : Json.Place} {room : Nat} {kind : String} {members members' : List Json.Member}
  {node : DocNode}

theorem layout?_unknown (hkind : kind ∉ Kind.tags.known.map (·.1))
    (htag : membersNamed members "kind" = [.text (some kind)]) (place : Json.Place) :
    (Form.node place).layout? (.object members) = some Kind.unsupported.layout := by
  have hnone : Json.named Kind.tags.known kind = none := by
    rw [Json.named, Option.map_eq_none_iff, List.find?_eq_none]
    intro known hmem heq
    exact hkind (List.mem_map.mpr ⟨known, hmem, of_decide_eq_true heq⟩)
  have hread : Kind.tags.read place (.text (some kind)) = some .unsupported := by
    simp only [Json.Tags.read, Json.Tags.ofName, hnone]
    rfl
  have hunknown : Json.kind? Kind.tags place (.object members) = some .unsupported := by
    simp [Json.kind?, Json.untag, htag, hread]
  exact Option.map_eq_some_iff.mpr ⟨_, hunknown, rfl⟩

theorem exists_kind_of_decode {j : Json} (h : (Form.node place).decode room j = some node) :
    ∃ kind, Json.kind? Kind.tags place j = some kind := by
  have hread : Form.readFields (Form.inside room) room (.node place) j = some node :=
    (Form.decode_eq (.node place) room j).symm.trans h
  obtain ⟨-, hbind⟩ := Option.ite_none_right_eq_some.mp hread
  obtain ⟨layout, hlayout, -⟩ := Option.bind_eq_some_iff.mp hbind
  obtain ⟨kind, hkind, -⟩ := Option.map_eq_some_iff.mp hlayout
  exact ⟨kind, hkind⟩

/-- What is decoded as a node has one tag. -/
theorem length_kind_of_decode
    (h : (Form.node place).decode room (.object members) = some node) :
    (membersNamed members "kind").length ≤ 1 := by
  obtain ⟨kind, hkind⟩ := exists_kind_of_decode h
  obtain ⟨untagged, huntag, -⟩ := Option.bind_eq_some_iff.mp hkind
  simp only [Json.untag] at huntag
  split at huntag
  · next tag heq => exact heq ▸ Nat.le_refl 1
  · cases huntag

theorem kept_unknown (hkind : kind ∉ Kind.tags.known.map (·.1))
    (htag : ∀ {node}, (Form.node place).decode room (.object members) = some node →
      membersNamed members' "kind" = [.text (some kind)])
    (hfits : (Json.object members).fits room = true → (Json.object members').fits room = true) :
    Kept .blank (.node place) room .here (.object members) (.object members') := by
  refine ⟨fun node hnode => ?_, fun _ => hfits, nofun, nofun⟩
  obtain ⟨known, hknown⟩ := exists_kind_of_decode hnode
  have hlayout : (Form.node place).layout? (.object members) = some known.layout :=
    Option.map_eq_some_iff.mpr ⟨known, hknown, rfl⟩
  obtain ⟨hadmits, -⟩ := (Form.decode_eq_some_iff hlayout).mp hnode
  refine (Form.decode_eq_some_iff (layout?_unknown hkind (htag hnode) place)).mpr
    ⟨Form.admits_of_fits (fun _ => hfits) hadmits, rfl⟩

end DocNode

theorem UnknownKind.kept {form : Form} {room : Nat} {j j' : Json} (h : UnknownKind form room j j') :
    Kept .blank form room .here j j' := by
  cases h with
  | rename hkind =>
    refine DocNode.kept_unknown hkind (fun hread => ?_) (Json.fits_replace_member fun _ => ?_)
    · exact Json.membersNamed_of_length_le_one _ (DocNode.length_kind_of_decode hread)
    · simp [Json.fits]
  | replace hkind htag hfits => exact DocNode.kept_unknown hkind (fun _ => htag) fun _ => hfits

/-! ## Documents -/

/-- One document has become another by a rewording somewhere in it. -/
def RewordedSomewhere (j j' : Json) : Prop :=
  ∃ address, ChangedWithin Reworded .model Json.maxLevels address j j'

theorem RewordedSomewhere.decode {j j' : Json} {model : Model} (h : RewordedSomewhere j j')
    (hj : Model.decode.document j = some model) : Model.decode.document j' = some model := by
  obtain ⟨address, hchange⟩ := h
  exact (hchange.kept (fun hlevels hj => hj.kept hlevels) rfl).decode model hj

/-- **Decoding does not depend on how a document is written.** Objects can be
reworded anywhere in it, any number of times; and where an object that stands
for a node is made one of an unknown kind, that node becomes an unsupported
one and all else is as before. -/
theorem decoding_ignores_presentation :
    (∀ {j j' : Json} {model : Model}, Relation.ReflTransGen RewordedSomewhere j j' →
        Model.decode.document j = some model → Model.decode.document j' = some model) ∧
      ∀ {j j' : Json} {address : Address} {model : Model},
        ChangedWithin UnknownKind .model Json.maxLevels address j j' →
        Model.decode.document j = some model →
          Model.decode.document j' = some (model.blank address) := by
  refine ⟨fun {j j' model} hsteps hj => ?_, fun {j j' address model} hchange hj => ?_⟩
  · induction hsteps with
    | refl => exact hj
    | tail _ hstep ih => exact hstep.decode ih
  · exact (hchange.kept (fun _ hj => hj.kept) rfl).decode model hj

namespace Page

/-- A document about one type, whose comment is this node. -/
def document (node : Json) : Json :=
  .object [(some "types", .array [.object
    [(some "doc", .object [(some "body", .array [node])]), (some "id", .text (some "a.B")),
     (some "name", .text (some "B")),
     (some "source", .array [.text (some "A.java"), 
       .number ⟨false, [⟨1, by decide⟩], none, none⟩])]])]

def model (node : DocNode) : Model :=
  { types := [
      { id := "a.B", name := "B", kind := .classType, superclass := none, interfaces := [],
        source := { file := "A.java", line := 1, column := 0 },
        doc := some { body := [node], tags := [] }, methods := [] }] }

/-- Where a part of the node stands in the document. -/
def inNode (rest : Address) : Address :=
  .field "types" (.item 0 (.field "doc" (.field "body" (.item 0 rest))))

theorem changed {Change : Form → Nat → Json → Json → Prop} {address : Address} {j j' : Json}
    (h : ChangedWithin Change (.node .outermost) 122 address j j') :
    ChangedWithin Change .model Json.maxLevels (inNode address) (document j) (document j') := by
  refine .member (.list "types" .typeDecl) [] [] rfl (by simp [Model.layout]) (.item [] [] ?_)
  refine .member (.nullable "doc" .comment) [] _ rfl (by simp [TypeDecl.layout]) (.given ?_)
  refine .member (.list "body" (.node .outermost)) [] [] rfl (by simp [DocComment.layout]) ?_
  exact .item [] [] h

theorem reworded {j j' : Json} (h : Reworded (.node .outermost) 122 j j') :
    RewordedSomewhere (document j) (document j') :=
  ⟨inNode .here, changed (.here h)⟩

/-- An element, with its list of children written out though it has none. -/
def element : List Json.Member :=
  [(some "children", .array []), (some "kind", .text (some "element")),
   (some "name", .text (some "b"))]

/-- The same in another order and without that list, with another default and
with a member that is not known, if the kind is the same. -/
def reordered (kind : String) : List Json.Member :=
  [(some "name", .text (some "b")), (some "kind", .text (some kind)),
   (some "self_closing", .bool false), (some "lang", .null)]

theorem element_reworded : Relation.ReflTransGen RewordedSomewhere
    (document (.object element)) (document (.object (reordered "element"))) := by
  have hdrop : Reworded (.node .outermost) 122 (.object element) (.object (element.drop 1)) :=
    .drop (.list "children" (.node .nested)) rfl (by simp [DocNode.Kind.layout])
      ⟨[], rfl, rfl⟩
  have hsupply : Reworded (.node .outermost) 122 (.object (element.drop 1))
      (.object ((some "self_closing", .bool false) :: element.drop 1)) :=
    .supply (.flag "self_closing") rfl (by simp [DocNode.Kind.layout]) rfl rfl
  have hadd : Reworded (.node .outermost) 122
      (.object ((some "self_closing", .bool false) :: element.drop 1))
      (.object ((some "lang", .null) :: (some "self_closing", .bool false) :: element.drop 1)) :=
    .add rfl (by decide) (fun _ => by decide) (fun _ => rfl)
  have hpermute : Reworded (.node .outermost) 122
      (.object ((some "lang", .null) :: (some "self_closing", .bool false) :: element.drop 1))
      (.object (reordered "element")) :=
    .permute rfl (List.reverse_perm _).symm
  exact (((Relation.ReflTransGen.single (reworded hdrop)).tail (reworded hsupply)).tail
    (reworded hadd)).tail (reworded hpermute)

theorem figure_unknown : ChangedWithin UnknownKind .model Json.maxLevels (inNode .here)
    (document (.object element)) (document (.object (reordered "figure"))) :=
  changed (.here (.replace (by decide) rfl rfl))

theorem element_decoded :
    Model.decode.document (document (.object (reordered "element")))
        = some (model (.element "b" [] [] false)) ∧
      Model.decode.document (document (.object (reordered "figure")))
        = some (model .unsupported) := by
  have hwritten : Model.decode.document (document (.object element))
      = some (model (.element "b" [] [] false)) := rfl
  exact ⟨decoding_ignores_presentation.1 element_reworded hwritten,
    decoding_ignores_presentation.2 figure_unknown hwritten⟩

/-! ### Members that an attribute's value may not have -/

/-- The fields of an attribute's value. -/
def fieldNames : AttrValue → List String
  | .empty => []
  | _ => ["text"]

/-- An attribute's value has one more member, which is neither its tag nor
one of its fields. -/
inductive Beside : Form → Nat → Json → Json → Prop where
  | add {room : Nat} {members : List Json.Member} {value : AttrValue} {name : String} {j : Json}
      (hvalue : Form.attrValue.decode (room + 1) (.object members) = some value)
      (htag : name ≠ "quote") (hname : name ∉ fieldNames value) (hfits : j.fits room = true) :
    Beside .attrValue (room + 1) (.object members) (.object ((some name, j) :: members))

/-- An element with an attribute. -/
def withAttribute (value : List Json.Member) : Json :=
  .object [(some "attributes", .array [.object
    [(some "value", .object value), (some "name", .text (some "id"))]]),
   (some "kind", .text (some "element")), (some "name", .text (some "b"))]

/-- Not every such member is ignored: an empty value has no text, and may not
have one. -/
theorem empty_refuses_text :
    ¬ ∀ (address : Address) (j j' : Json) (model : Model),
        ChangedWithin Beside .model Json.maxLevels address j j' →
        Model.decode.document j = some model → Model.decode.document j' = some model := by
  intro hall
  have hadd : Beside .attrValue 119 (.object [(some "quote", .text (some "empty"))])
      (.object [(some "text", .text (some "x")), (some "quote", .text (some "empty"))]) :=
    .add rfl (by decide) (by decide) rfl
  have hnode : ChangedWithin Beside (.node .outermost) 122
      (.field "attributes" (.item 0 (.field "value" .here)))
      (withAttribute [(some "quote", .text (some "empty"))])
      (withAttribute [(some "text", .text (some "x")), (some "quote", .text (some "empty"))]) := by
    refine .member (.list "attributes" .attr) [] _ rfl (by simp [DocNode.Kind.layout])
      (.item [] [] ?_)
    exact .member (.optional "value" .attrValue .empty) [] _ rfl (by simp [Attribute.layout])
      (.here hadd)
  have hsame := hall _ _ _ (model (.element "b" [⟨"id", .empty⟩] [] false)) (changed hnode) rfl
  cases hsame

end Page

end ApiStubs
