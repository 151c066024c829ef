/-
ApiStubs.Proofs.LayoutTheorems — what all layouts have in common.

What is true of all places in a document is proved by the table of the
format: by its entries (`Form.HasLayout`) and by what decoding makes of them
(`Form.decode_eq_some_iff`).

`Form.WellLaid` is checked entry by entry and then true of every value: its
fields have distinct names, none has that of the tag, and a default is what
is read where it is written out. The last depends on where that is. A default
can be an array or an object, which takes a level of nesting, and a document
may only have so many. There is always one left, since lists and the nodes
in them take turns and the number of levels is odd (`Form.Levels`).
-/
import Mathlib.Data.List.Nodup
import ApiStubs.Model.Decode

namespace ApiStubs

/-! ## Entries of the table -/

/-- The layouts of values in a form, whatever their tags. -/
inductive Form.HasLayout : (form : Form) → Layout form.Value → Prop where
  | model : HasLayout .model Model.layout
  | typeDecl : HasLayout .typeDecl TypeDecl.layout
  | methodDecl : HasLayout .methodDecl MethodDecl.layout
  | marker : HasLayout .marker Marker.layout
  | param : HasLayout .param Param.layout
  | source : HasLayout .source SourcePos.layout
  | comment : HasLayout .comment DocComment.layout
  | node (place : Json.Place) (kind : DocNode.Kind) : HasLayout (.node place) kind.layout
  | valueType (place : Json.Place) (kind : ValueType.Kind) :
    HasLayout (.valueType place) kind.layout
  | target (place : Json.Place) (kind : Target.Kind) : HasLayout (.target place) kind.layout
  | reference : HasLayout .reference Reference.layout
  | attr : HasLayout .attr Attribute.layout
  | attrValue : HasLayout .attrValue AttrValue.layout

namespace Form

theorem hasLayout {form : Form} {layout : Layout form.Value} {j : Json}
    (h : form.layout? j = some layout) : form.HasLayout layout := by
  cases form with
  | node place =>
    obtain ⟨kind, -, rfl⟩ := Option.map_eq_some_iff.mp h
    exact .node place kind
  | valueType place =>
    obtain ⟨kind, -, rfl⟩ := Option.map_eq_some_iff.mp h
    exact .valueType place kind
  | target place =>
    obtain ⟨kind, -, rfl⟩ := Option.map_eq_some_iff.mp h
    exact .target place kind
  | attrValue =>
    cases j with
    | object members =>
      cases h
      exact .attrValue
    | _ => cases h
  | model | typeDecl | methodDecl | marker | param | source | comment | reference | attr =>
    cases h
    constructor
  | _ => cases h

/-! ## Decoding by the table -/

/-- How values are read inside of one that may open so many levels. -/
def inside : Nat → Reader
  | 0 => fun _ _ => none
  | room + 1 => fun form => form.decode room

theorem decode_eq (form : Form) (room : Nat) (j : Json) :
    form.decode room j = readWith (inside room) room form j := by
  cases room <;> rfl

theorem decode_eq_readFields {form : Form} {layout : Layout form.Value} {j : Json}
    (h : form.layout? j = some layout) (room : Nat) :
    form.decode room j = readFields (inside room) room form j := by
  rw [decode_eq]
  cases form with
  | attrValue =>
    cases j with
    | object members => rfl
    | _ => cases h
  | text | word | flag | typeKind | numberRepr | stringRepr | quoteStyle => cases h
  | list items => cases h
  | nullable value => cases h
  | _ => rfl

/-- **Decoding goes by the table**: a value is what its fields make up, read
as the table says. -/
theorem decode_eq_some_iff {form : Form} {layout : Layout form.Value} {j : Json} {room : Nat}
    {x : form.Value} (h : form.layout? j = some layout) :
    form.decode room j = some x ↔
      form.admits room j = true ∧ layout.read (inside room) room (form.record j) = some x := by
  rw [decode_eq_readFields h, readFields, h]
  cases form.admits room j <;> simp

end Form

/-! ## Levels and defaults -/

namespace Form

/-- Does the form stand outside of all tagged values? What is not read there
is not checked either. -/
def isOpen : Form → Bool
  | .model | .typeDecl | .methodDecl | .marker | .param | .source | .comment => true
  | .list items => items.isOpen
  | .nullable value => value.isOpen
  | _ => false

/-- Can so many levels be left at a place of this form? From a document to
its methods their number is fixed. Below, lists and the nodes or attributes
in them take turns, so that these always find an even number. -/
def Levels : Form → Nat → Prop
  | .model, room => room = Json.maxLevels
  | .typeDecl, room => room = 125
  | .methodDecl, room => room = 123
  | .comment, room | .node _, room | .attr, room => room % 2 = 0
  | .list items, room => ∀ left, room = left + 1 → items.Levels left
  | .nullable value, room => value.Levels room
  | _, _ => True

end Form

/-- How the defaults of fields are written. -/
def Form.writtenDefault : Form → Json
  | .list _ => .array []
  | .nullable _ => .null
  | .flag => .bool false
  | .word => .number ⟨false, [⟨0, by decide⟩], none, none⟩
  | .typeKind => .text (some "class")
  | .numberRepr => .text (some "int")
  | .stringRepr => .text (some "text")
  | .valueType _ => .object [(some "kind", .text (some "void"))]
  | .attrValue => .object [(some "quote", .text (some "empty"))]
  | _ => .null

/-- The default of a field, if it has one, is what is read where it is
written out, and that is within the limits. -/
def Slot.WritesDefault (slot : Slot) (room : Nat) : Prop :=
  ∀ value, slot.default = some value →
    slot.form.decode room slot.form.writtenDefault = some value
      ∧ slot.form.writtenDefault.fits room = true

namespace Slot

theorem writesDefault_required (name : String) (form : Form) (room : Nat) :
    (Slot.required name form).WritesDefault room := by
  rintro value ⟨⟩

theorem writesDefault_optional {form : Form} {value : form.Value} {room : Nat} (name : String)
    (hdecode : form.decode room form.writtenDefault = some value)
    (hfits : form.writtenDefault.fits room = true) :
    (Slot.optional name form value).WritesDefault room := by
  rintro value ⟨⟩
  exact ⟨hdecode, hfits⟩

theorem writesDefault_list (name : String) (items : Form) {room : Nat} (hroom : 0 < room) :
    (Slot.list name items).WritesDefault room := by
  obtain ⟨left, rfl⟩ : ∃ left, room = left + 1 := Nat.exists_eq_add_one.mpr hroom
  exact writesDefault_optional name rfl rfl

/-- A default that opens no level. -/
theorem writesDefault_flat {form : Form} {value : form.Value} (name : String) (room : Nat)
    (hdecode : ∀ inside room, Form.readWith inside room form form.writtenDefault = some value)
    (hfits : ∀ room, form.writtenDefault.fits room = true) :
    (Slot.optional name form value).WritesDefault room :=
  writesDefault_optional name ((Form.decode_eq ..).trans (hdecode _ room)) (hfits room)

theorem writesDefault_nullable (name : String) (value : Form) (room : Nat) :
    (Slot.nullable name value).WritesDefault room :=
  writesDefault_flat name room (fun _ _ => rfl) (fun _ => by simp [Form.writtenDefault, Json.fits])

theorem writesDefault_flag (name : String) (room : Nat) : (Slot.flag name).WritesDefault room :=
  writesDefault_flat name room (fun _ _ => rfl) (fun _ => by simp [Form.writtenDefault, Json.fits])

end Slot

namespace Form

/-- What all layouts have in common. -/
structure WellLaid (form : Form) (layout : Layout form.Value) : Prop where
  distinct : layout.names.Nodup
  untagged : form.isTagged = true → "kind" ∉ layout.names
  closed : form.isOpen = false → ∀ slot ∈ layout.slots, slot.form.isOpen = false
  levels : ∀ {room}, form.Levels (room + 1) → ∀ slot ∈ layout.slots, slot.form.Levels room
  defaults : ∀ {room}, form.Levels (room + 1) → ∀ slot ∈ layout.slots, slot.WritesDefault room

theorem wellLaid_node (place : Json.Place) (kind : DocNode.Kind) :
    (Form.node place).WellLaid kind.layout where
  distinct := by cases kind <;> simp [DocNode.Kind.layout, Layout.names, Reference.slots]
  untagged _ := by cases kind <;> simp [DocNode.Kind.layout, Layout.names, Reference.slots]
  closed _ := by cases kind <;> simp [DocNode.Kind.layout, Reference.slots, isOpen]
  levels {room} hroom := by
    have heven : (room + 1) % 2 = 0 := hroom
    cases kind <;> simp [DocNode.Kind.layout, Reference.slots, Levels] <;> omega
  defaults {room} hroom := by
    have heven : (room + 1) % 2 = 0 := hroom
    have hpos : 0 < room := by omega
    cases kind <;>
      simp [DocNode.Kind.layout, Reference.slots, Slot.writesDefault_required,
        Slot.writesDefault_list, Slot.writesDefault_nullable, Slot.writesDefault_flag, hpos]

theorem wellLaid_valueType (place : Json.Place) (kind : ValueType.Kind) :
    (Form.valueType place).WellLaid kind.layout where
  distinct := by cases kind <;> simp [ValueType.Kind.layout, Layout.names]
  untagged _ := by cases kind <;> simp [ValueType.Kind.layout, Layout.names]
  closed _ := by cases kind <;> simp [ValueType.Kind.layout, isOpen]
  levels _ := by cases kind <;> simp [ValueType.Kind.layout, Levels]
  defaults {room} _ := by
    have hnumber : (Slot.optional "repr" .numberRepr .int).WritesDefault room :=
      Slot.writesDefault_flat "repr" room (fun _ _ => rfl)
      (fun _ => by simp [writtenDefault, Json.fits])
    have hstring : (Slot.optional "repr" .stringRepr .text).WritesDefault room :=
      Slot.writesDefault_flat "repr" room (fun _ _ => rfl)
      (fun _ => by simp [writtenDefault, Json.fits])
    cases kind <;>
      simp [ValueType.Kind.layout, Slot.writesDefault_required, Slot.writesDefault_nullable,
        Slot.writesDefault_flag, hnumber, hstring]

theorem wellLaid_target (place : Json.Place) (kind : Target.Kind) :
    (Form.target place).WellLaid kind.layout where
  distinct := by cases kind <;> simp [Target.Kind.layout, Layout.names]
  untagged _ := by cases kind <;> simp [Target.Kind.layout, Layout.names]
  closed _ := by cases kind <;> simp [Target.Kind.layout, isOpen]
  levels _ := by cases kind <;> simp [Target.Kind.layout, Levels]
  defaults _ := by cases kind <;> simp [Target.Kind.layout, Slot.writesDefault_required]

theorem wellLaid_model : Form.model.WellLaid Model.layout where
  distinct := by simp [Model.layout, Layout.names]
  untagged := nofun
  closed := nofun
  levels {room} hroom := by
    have hlevels : room + 1 = 127 := hroom
    simp [Model.layout, Levels]
    omega
  defaults {room} hroom := by
    have hlevels : room + 1 = 127 := hroom
    have hpos : 0 < room := by omega
    simp [Model.layout, Slot.writesDefault_list, hpos]

theorem wellLaid_typeDecl : Form.typeDecl.WellLaid TypeDecl.layout where
  distinct := by simp [TypeDecl.layout, Layout.names]
  untagged := nofun
  closed := nofun
  levels {room} hroom := by
    have hlevels : room + 1 = 125 := hroom
    simp [TypeDecl.layout, Levels]
    exact ⟨by omega, fun left hleft => by omega⟩
  defaults {room} hroom := by
    have hlevels : room + 1 = 125 := hroom
    have hpos : 0 < room := by omega
    have hkind : (Slot.optional "kind" .typeKind .classType).WritesDefault room :=
      Slot.writesDefault_flat "kind" room (fun _ _ => rfl)
      (fun _ => by simp [writtenDefault, Json.fits])
    simp [TypeDecl.layout, Slot.writesDefault_required, Slot.writesDefault_nullable,
      Slot.writesDefault_list, hpos, hkind]

theorem wellLaid_methodDecl : Form.methodDecl.WellLaid MethodDecl.layout where
  distinct := by simp [MethodDecl.layout, Layout.names]
  untagged := nofun
  closed := nofun
  levels {room} hroom := by
    have hlevels : room + 1 = 123 := hroom
    simp [MethodDecl.layout, Levels]
    omega
  defaults {room} hroom := by
    obtain rfl : room = 122 := Nat.succ.inj hroom
    have hreturns : (Slot.optional "returns" (.valueType .outermost) .void).WritesDefault 122 :=
      Slot.writesDefault_optional "returns" rfl rfl
    simp [MethodDecl.layout, Slot.writesDefault_required, Slot.writesDefault_nullable,
      Slot.writesDefault_list, Slot.writesDefault_flag, hreturns]

theorem wellLaid_marker : Form.marker.WellLaid Marker.layout where
  distinct := by simp [Marker.layout, Layout.names]
  untagged := nofun
  closed := nofun
  levels _ := by simp [Marker.layout, Levels]
  defaults _ := by simp [Marker.layout, Slot.writesDefault_nullable]

theorem wellLaid_param : Form.param.WellLaid Param.layout where
  distinct := by simp [Param.layout, Layout.names]
  untagged := nofun
  closed := nofun
  levels _ := by simp [Param.layout, Levels]
  defaults _ := by simp [Param.layout, Slot.writesDefault_required]

theorem wellLaid_source : Form.source.WellLaid SourcePos.layout where
  distinct := by simp [SourcePos.layout, Layout.names]
  untagged := nofun
  closed := nofun
  levels _ := by simp [SourcePos.layout, Levels]
  defaults {room} _ := by
    have hzero : ∀ room, Form.word.writtenDefault.fits room = true := by
      intro room
      rw [writtenDefault, Json.fits]
      decide
    have hcolumn : (Slot.optional "column" .word Nat.zero).WritesDefault room :=
      Slot.writesDefault_flat "column" room (fun _ _ => rfl) hzero
    simpa [SourcePos.layout, Slot.writesDefault_required] using hcolumn

theorem wellLaid_comment : Form.comment.WellLaid DocComment.layout where
  distinct := by simp [DocComment.layout, Layout.names]
  untagged := nofun
  closed := nofun
  levels {room} hroom := by
    have heven : (room + 1) % 2 = 0 := hroom
    simp [DocComment.layout, Levels]
    omega
  defaults {room} hroom := by
    have heven : (room + 1) % 2 = 0 := hroom
    have hpos : 0 < room := by omega
    simp [DocComment.layout, Slot.writesDefault_list, hpos]

theorem wellLaid_reference : Form.reference.WellLaid Reference.layout where
  distinct := by simp [Reference.layout, Reference.slots, Layout.names]
  untagged := nofun
  closed _ := by simp [Reference.layout, Reference.slots, isOpen]
  levels _ := by simp [Reference.layout, Reference.slots, Levels]
  defaults _ := by
    simp [Reference.layout, Reference.slots, Slot.writesDefault_required,
      Slot.writesDefault_nullable]

theorem wellLaid_attr : Form.attr.WellLaid Attribute.layout where
  distinct := by simp [Attribute.layout, Layout.names]
  untagged := nofun
  closed _ := by simp [Attribute.layout, isOpen]
  levels _ := by simp [Attribute.layout, Levels]
  defaults {room} hroom := by
    -- The default is an object, for which a level is left, as it is an odd number of them.
    have heven : (room + 1) % 2 = 0 := hroom
    obtain ⟨left, rfl⟩ : ∃ left, room = left + 1 := Nat.exists_eq_add_one.mpr (by omega)
    have hvalue : (Slot.optional "value" .attrValue .empty).WritesDefault (left + 1) :=
      Slot.writesDefault_optional "value" (by cases left <;> rfl)
        (by simp [writtenDefault, Json.fits])
    simp [Attribute.layout, Slot.writesDefault_required, hvalue]

theorem wellLaid_attrValue : Form.attrValue.WellLaid AttrValue.layout where
  distinct := by simp [AttrValue.layout, Layout.names]
  untagged := nofun
  closed _ := by simp [AttrValue.layout, isOpen]
  levels _ := by simp [AttrValue.layout, Levels]
  defaults _ := by
    simp [AttrValue.layout, Slot.writesDefault_required, Slot.writesDefault_nullable]

theorem wellLaid {form : Form} {layout : Layout form.Value} {j : Json}
    (h : form.layout? j = some layout) : form.WellLaid layout := by
  cases hasLayout h with
  | model => exact wellLaid_model
  | typeDecl => exact wellLaid_typeDecl
  | methodDecl => exact wellLaid_methodDecl
  | marker => exact wellLaid_marker
  | param => exact wellLaid_param
  | source => exact wellLaid_source
  | comment => exact wellLaid_comment
  | node place kind => exact wellLaid_node place kind
  | valueType place kind => exact wellLaid_valueType place kind
  | target place kind => exact wellLaid_target place kind
  | reference => exact wellLaid_reference
  | attr => exact wellLaid_attr
  | attrValue => exact wellLaid_attrValue

end Form

end ApiStubs
