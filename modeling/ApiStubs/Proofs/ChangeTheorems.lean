/-
ApiStubs.Proofs.ChangeTheorems — a change within a document is a change of
the part that it decodes to.

`ChangedWithin` leads to a change through the items and fields around it,
whether a record is written as an object or as an array. `Kept` says what a
change does to the value that is decoded, and it is enough to know that of
the change itself: one lemma for each way to go on outwards gives it for the
whole document (`ChangedWithin.kept`). An `Edit` is what happens to values; it has
to act on the fields of a record one at a time.

Besides what is decoded two things are kept. Tagged values are taken in as a
whole before anything is made of them, so there all that is written has to
stay within the limits, also where nothing is read. And since `null` stands
for a value that is absent, none may come or go.
-/
import ApiStubs.Proofs.LayoutTheorems
import ApiStubs.Proofs.MemberTheorems

namespace ApiStubs

open Json (Fields Agree membersNamed)

/-! ## Where a change can be -/

/-- Where something stands within a document: by which fields and items one
comes to it. -/
inductive Address where
  | here
  | field (name : String) (rest : Address)
  | item (index : Nat) (rest : Address)
  deriving DecidableEq, Repr

/-- How many items of an array stand before those that are fields. -/
def Form.lead (form : Form) : Nat :=
  if form.isTagged then 1 else 0

/-- One value has become another within a document, by a change of the given
sort at an address. The number says how many levels of nesting may be
opened there. -/
inductive ChangedWithin (Change : Form → Nat → Json → Json → Prop) :
    Form → Nat → Address → Json → Json → Prop where
  | here {form : Form} {room : Nat} {j j' : Json} (h : Change form room j j') :
    ChangedWithin Change form room .here j j'
  | item {items : Form} {room : Nat} {address : Address} {j j' : Json}
      (before after : List Json) (h : ChangedWithin Change items room address j j') :
    ChangedWithin Change (.list items) (room + 1) (.item before.length address)
      (.array (before ++ j :: after)) (.array (before ++ j' :: after))
  | given {value : Form} {room : Nat} {address : Address} {j j' : Json}
      (h : ChangedWithin Change value room address j j') :
    ChangedWithin Change (.nullable value) room address j j'
  | member {form : Form} {layout : Layout form.Value} {room : Nat} {address : Address}
      {j j' : Json} (slot : Slot) (before after : List Json.Member)
      (hlayout : form.layout? (.object (before ++ (some slot.name, j) :: after)) = some layout)
      (hslot : slot ∈ layout.slots) (h : ChangedWithin Change slot.form room address j j') :
    ChangedWithin Change form (room + 1) (.field slot.name address)
      (.object (before ++ (some slot.name, j) :: after))
      (.object (before ++ (some slot.name, j') :: after))
  | position {form : Form} {layout : Layout form.Value} {room index : Nat} {address : Address}
      {j j' : Json} (slot : Slot) (before after : List Json)
      (hlayout : form.layout? (.array (before ++ j :: after)) = some layout)
      (hlength : before.length = form.lead + index) (hslot : layout.slots[index]? = some slot)
      (h : ChangedWithin Change slot.form room address j j') :
    ChangedWithin Change form (room + 1) (.field slot.name address)
      (.array (before ++ j :: after)) (.array (before ++ j' :: after))

/-! ## Reading a changed record -/

/-- Reads the field from the member that has its name, if there is one. -/
def Slot.readFrom (inside : Form.Reader) (slot : Slot) : Option Json → Option slot.form.Value
  | some j => inside slot.form j
  | none => slot.default

theorem Slot.read_eq (inside : Form.Reader) (slot : Slot) (fields : Fields) :
    slot.read inside fields = slot.readFrom inside (fields.get? slot.name) := by
  unfold Slot.read Slot.readFrom Fields.required Fields.optional
  cases slot.default <;> cases fields.get? slot.name <;> rfl

/-- Changing the values of the fields by `change` changes what they make up
by `edit`. -/
def Builder.Follows {α : Type} (change : (slot : Slot) → slot.form.Value → slot.form.Value)
    (edit : α → α) : {slots : List Slot} → Builder α slots → Builder α slots → Prop
  | [], result, result' => result' = result.map edit
  | slot :: _, build, build' =>
    ∀ value, Follows change edit (build value) (build' (change slot value))

section

variable {α : Type} {inside : Form.Reader} {fields fields' : Fields}
  {change : (slot : Slot) → slot.form.Value → slot.form.Value} {edit : α → α}

theorem Builder.Follows.run : {slots : List Slot} → {build build' : Builder α slots} →
    Builder.Follows change edit build build' →
    (∀ slot ∈ slots, ∀ value, slot.read inside fields = some value →
      slot.read inside fields' = some (change slot value)) →
    ∀ {x}, build.run inside fields = some x → build'.run inside fields' = some (edit x)
  | [], _, _, h, _, _, hx => h.trans (congrArg _ hx)
  | slot :: slots, _, _, h, hread, x, hx => by
    obtain ⟨value, hvalue, hx⟩ := Option.bind_eq_some_iff.mp hx
    have hvalue' := hread slot List.mem_cons_self value hvalue
    refine Option.bind_eq_some_iff.mpr ⟨change slot value, hvalue', ?_⟩
    exact (h value).run (fun slot hslot => hread slot (List.mem_cons_of_mem _ hslot)) hx

/-- Objects whose members agree, but for one name at most, make up what
follows the change of that field. -/
theorem Layout.read_of_agree {layout : Layout α} {members members' : List Json.Member}
    {exception : Option String} {room : Nat} {x : α} (h : Agree exception members members')
    (hfollows : Builder.Follows change edit layout.build layout.build)
    (hothers : ∀ slot ∈ layout.slots, some slot.name ≠ exception →
      ∀ value, change slot value = value)
    (hexception : ∀ slot ∈ layout.slots, some slot.name = exception →
      (membersNamed members slot.name).length ≤ 1 →
        (membersNamed members' slot.name).length ≤ 1
          ∧ ∀ value, slot.readFrom inside (membersNamed members slot.name).head? = some value →
            slot.readFrom inside (membersNamed members' slot.name).head?
              = some (change slot value))
    (hread : layout.read inside (room + 1) (.object members) = some x) :
    layout.read inside (room + 1) (.object members') = some (edit x) := by
  obtain ⟨fields, hfields, hrun⟩ := Option.bind_eq_some_iff.mp hread
  unfold Layout.fields at hfields
  split at hfields
  · next hempty =>
    have hnone : ∀ slot, slot ∉ layout.slots := by simp [List.isEmpty_iff.mp hempty]
    refine Option.bind_eq_some_iff.mpr ⟨fields, (if_pos hempty).trans hfields, ?_⟩
    exact hfollows.run (fun slot hslot => absurd hslot (hnone slot)) hrun
  · next hempty =>
    have hname : ∀ slot ∈ layout.slots, slot.name ∈ layout.names :=
      fun slot hslot => List.mem_map_of_mem hslot
    have hsingle := (Json.fields_object_eq_some_iff.mp hfields).2.1
    obtain ⟨fields', hfields', hsame⟩ := h.keeps_fields (fun name hmem hexc => by
      obtain ⟨slot, hslot, rfl⟩ := List.mem_map.mp hmem
      exact (hexception slot hslot hexc (hsingle _ hmem)).1) hfields
    refine Option.bind_eq_some_iff.mpr ⟨fields', (if_neg hempty).trans hfields', ?_⟩
    refine hfollows.run (fun slot hslot value hvalue => ?_) hrun
    rw [Slot.read_eq] at hvalue ⊢
    by_cases hexc : some slot.name = exception
    · rw [Json.get?_of_fields (hname slot hslot) hfields] at hvalue
      rw [Json.get?_of_fields (hname slot hslot) hfields']
      exact (hexception slot hslot hexc (hsingle _ (hname slot hslot))).2 value hvalue
    · rw [hsame _ (hname slot hslot) hexc, hothers slot hslot hexc]
      exact hvalue

/-- The same of an array in which one item is another. -/
theorem Layout.read_replace_item {layout : Layout α} {before after : List Json} {j j' : Json}
    {slot : Slot} {room : Nat} {x : α} (hnodup : layout.names.Nodup)
    (hslot : layout.slots[before.length]? = some slot)
    (hfollows : Builder.Follows change edit layout.build layout.build)
    (hothers : ∀ other ∈ layout.slots, other.name ≠ slot.name →
      ∀ value, change other value = value)
    (hchange : ∀ value, inside slot.form j = some value →
      inside slot.form j' = some (change slot value))
    (hread : layout.read inside (room + 1) (.array (before ++ j :: after)) = some x) :
    layout.read inside (room + 1) (.array (before ++ j' :: after)) = some (edit x) := by
  have hmem : slot ∈ layout.slots := List.mem_of_getElem? hslot
  have hempty : ¬ layout.slots.isEmpty = true := by
    simpa using List.ne_nil_of_mem hmem
  have hat : layout.names[before.length]? = some slot.name := by simp [Layout.names, hslot]
  obtain ⟨fields, hfields, hrun⟩ := Option.bind_eq_some_iff.mp hread
  rw [Layout.fields, if_neg hempty] at hfields
  obtain ⟨hget, fields', hfields', hget', hsame⟩ :=
    Json.fields_replace_item j' hnodup hat hfields
  refine Option.bind_eq_some_iff.mpr ⟨fields', (if_neg hempty).trans hfields', ?_⟩
  refine hfollows.run (fun other hother value hvalue => ?_) hrun
  rw [Slot.read_eq] at hvalue ⊢
  by_cases hname : other.name = slot.name
  · obtain rfl : other = slot := List.inj_on_of_nodup_map hnodup hother hmem hname
    rw [hget] at hvalue
    rw [hget']
    exact hchange value hvalue
  · rw [hsame _ (Ne.symm hname), hothers other hother hname]
    exact hvalue

end

/-! ## What a change does to what is decoded -/

/-- A way to change values, given where in them: what it does to a list or
to a record is what it does to one item or to one field. -/
structure Edit where
  on : (form : Form) → Address → form.Value → form.Value
  on_item : ∀ (items : Form) (index : Nat) (address : Address) (xs : List items.Value),
    on (.list items) (.item index address) xs = xs.modify index (on items address)
  on_given : ∀ (value : Form) (address : Address) (x : value.Value),
    on (.nullable value) address (some x) = some (on value address x)
  on_field : ∀ {form : Form} {layout : Layout form.Value} {j : Json},
    form.layout? j = some layout → ∀ slot ∈ layout.slots, ∀ address,
      Builder.Follows (fun other x => if other.name = slot.name then on other.form address x else x)
        (on form (.field slot.name address)) layout.build layout.build

/-- Decoding after a change gives what was decoded before it, edited at the
address of the change; what was within the limits still is. -/
structure Kept (edit : Edit) (form : Form) (room : Nat) (address : Address) (j j' : Json) :
    Prop where
  decode : ∀ x, form.decode room j = some x →
    form.decode room j' = some (edit.on form address x)
  fits : form.isOpen = false → j.fits room = true → j'.fits room = true
  given : j ≠ .null ∧ j' ≠ .null

namespace Form

variable {form : Form} {room : Nat} {j j' : Json}

theorem admits_of_fits (h : form.isOpen = false → j.fits room = true → j'.fits room = true)
    (hj : form.admits room j = true) : form.admits room j' = true := by
  cases form with
  | node place =>
    cases place with
    | outermost => exact h rfl hj
    | nested => rfl
  | valueType place =>
    cases place with
    | outermost => exact h rfl hj
    | nested => rfl
  | target place =>
    cases place with
    | outermost => exact h rfl hj
    | nested => rfl
  | _ => rfl

theorem record_of_not_tagged (hform : form.isTagged = false) (j : Json) : form.record j = j := by
  cases j <;> simp [record, hform]

/-- Objects whose tags agree are of the same kind. -/
theorem kind?_of_perm {α : Type} {tags : Json.Tags α} {place : Json.Place} {kind : α}
    {members members' : List Json.Member}
    (h : (membersNamed members' "kind").Perm (membersNamed members "kind"))
    (hkind : Json.kind? tags place (.object members) = some kind) :
    Json.kind? tags place (.object members') = some kind := by
  obtain ⟨⟨tag, rest⟩, huntag, htag⟩ := Option.bind_eq_some_iff.mp hkind
  simp only [Json.untag] at huntag
  split at huntag
  · next only heq =>
    obtain ⟨rfl, -⟩ := Prod.mk.inj (Option.some.inj huntag)
    rw [heq] at h
    simp [Json.kind?, Json.untag, List.perm_singleton.mp h, htag]
  · cases huntag

theorem layout?_of_agree {layout : Layout form.Value} {members members' : List Json.Member}
    {exception : Option String} (h : Agree exception members members')
    (hkind : form.isTagged = true → exception ≠ some "kind")
    (hlayout : form.layout? (.object members) = some layout) :
    form.layout? (.object members') = some layout := by
  cases form with
  | node place | valueType place | target place =>
    obtain ⟨kind, hmem, rfl⟩ := Option.map_eq_some_iff.mp hlayout
    exact Option.map_eq_some_iff.mpr
      ⟨kind, kind?_of_perm (h.named "kind" (hkind rfl).symm) hmem, rfl⟩
  | _ => exact hlayout

end Form

/-- Members that agree but for one name: nothing changes but what is made of
that field. -/
theorem kept_of_agree {edit : Edit} {form : Form} {layout : Layout form.Value} {room : Nat}
    {address : Address} {members members' : List Json.Member} {exception : Option String}
    {change : (slot : Slot) → slot.form.Value → slot.form.Value}
    (hlayout : form.layout? (.object members) = some layout)
    (h : Agree exception members members')
    (hkind : form.isTagged = true → exception ≠ some "kind")
    (hfits : form.isOpen = false → (Json.object members).fits (room + 1) = true →
      (Json.object members').fits (room + 1) = true)
    (hfollows : Builder.Follows change (edit.on form address) layout.build layout.build)
    (hothers : ∀ slot ∈ layout.slots, some slot.name ≠ exception →
      ∀ value, change slot value = value)
    (hexception : ∀ slot ∈ layout.slots, some slot.name = exception →
      (membersNamed members slot.name).length ≤ 1 →
        (membersNamed members' slot.name).length ≤ 1
          ∧ ∀ value, slot.readFrom (Form.inside (room + 1)) (membersNamed members slot.name).head?
              = some value →
            slot.readFrom (Form.inside (room + 1)) (membersNamed members' slot.name).head?
              = some (change slot value)) :
    Kept edit form (room + 1) address (.object members) (.object members') where
  decode x hx := by
    obtain ⟨hadmits, hread⟩ := (Form.decode_eq_some_iff hlayout).mp hx
    refine (Form.decode_eq_some_iff (Form.layout?_of_agree h hkind hlayout)).mpr
      ⟨Form.admits_of_fits hfits hadmits, ?_⟩
    cases htagged : form.isTagged with
    | false =>
      rw [Form.record_of_not_tagged htagged] at hread ⊢
      exact Layout.read_of_agree h hfollows hothers hexception hread
    | true =>
      -- The tag is no field, so the members agree without it as they did with it.
      have huntagged := (Form.wellLaid hlayout).untagged htagged
      simp only [Form.record, htagged, if_true] at hread ⊢
      refine Layout.read_of_agree (h.filter "kind") hfollows hothers ?_ hread
      intro slot hslot
      have hname : slot.name ≠ "kind" :=
        fun heq => huntagged (heq ▸ List.mem_map_of_mem hslot)
      rw [Json.membersNamed_filter, Json.membersNamed_filter, if_neg hname, if_neg hname]
      exact hexception slot hslot
  fits := hfits
  given := ⟨nofun, nofun⟩

/-- The same where that name is the one of a field. -/
theorem kept_of_agree_field {edit : Edit} {form : Form} {layout : Layout form.Value} {slot : Slot}
    {room : Nat} {address : Address} {members members' : List Json.Member}
    {change : (slot : Slot) → slot.form.Value → slot.form.Value}
    (hlayout : form.layout? (.object members) = some layout) (hslot : slot ∈ layout.slots)
    (h : Agree (some slot.name) members members')
    (hfits : form.isOpen = false → (Json.object members).fits (room + 1) = true →
      (Json.object members').fits (room + 1) = true)
    (hfollows : Builder.Follows change (edit.on form address) layout.build layout.build)
    (hothers : ∀ other : Slot, other.name ≠ slot.name → ∀ value, change other value = value)
    (hread : (membersNamed members slot.name).length ≤ 1 →
      (membersNamed members' slot.name).length ≤ 1
        ∧ ∀ value, slot.readFrom (Form.inside (room + 1)) (membersNamed members slot.name).head?
            = some value →
          slot.readFrom (Form.inside (room + 1)) (membersNamed members' slot.name).head?
            = some (change slot value)) :
    Kept edit form (room + 1) address (.object members) (.object members') := by
  have hlaid := Form.wellLaid hlayout
  refine kept_of_agree hlayout h ?_ hfits hfollows ?_ ?_
  · intro htagged heq
    exact hlaid.untagged htagged (Option.some.inj heq ▸ List.mem_map_of_mem hslot)
  · exact fun other _ hname => hothers other fun heq => hname (congrArg some heq)
  · intro other hother hname
    obtain rfl : other = slot :=
      List.inj_on_of_nodup_map hlaid.distinct hother hslot (Option.some.inj hname)
    exact hread

theorem mapM_replace {α β : Type} {f : α → Option β} {g : β → β} {x x' : α} {after : List α}
    (h : ∀ y, f x = some y → f x' = some (g y)) :
    {before : List α} → {ys : List β} → (before ++ x :: after).mapM f = some ys →
      (before ++ x' :: after).mapM f = some (ys.modify before.length g)
  | [], ys, hys => by
    simp only [List.nil_append, List.mapM_cons, Option.bind_eq_bind, Option.bind_eq_some_iff,
      Option.pure_def, Option.some.injEq] at hys ⊢
    obtain ⟨y, hy, rest, hrest, rfl⟩ := hys
    exact ⟨g y, h y hy, rest, hrest, by simp⟩
  | first :: before, ys, hys => by
    simp only [List.cons_append, List.mapM_cons, Option.bind_eq_bind, Option.bind_eq_some_iff,
      Option.pure_def, Option.some.injEq] at hys ⊢
    obtain ⟨y, hy, rest, hrest, rfl⟩ := hys
    exact ⟨y, hy, _, mapM_replace h hrest, by simp⟩

theorem Form.layout?_replace_item {form : Form} {layout : Layout form.Value} {j : Json}
    {before after : List Json} (j' : Json) (hlead : form.lead ≤ before.length)
    (hlayout : form.layout? (.array (before ++ j :: after)) = some layout) :
    form.layout? (.array (before ++ j' :: after)) = some layout := by
  cases form with
  | node place | valueType place | target place =>
    cases before with
    | nil => exact absurd hlead (Nat.not_succ_le_zero 0)
    | cons first before => exact hlayout
  | _ => exact hlayout

section

variable {edit : Edit} {form : Form} {layout : Layout form.Value} {slot : Slot} {room : Nat}
  {address : Address} {j j' : Json}

theorem Kept.item {items : Form} (before after : List Json)
    (h : Kept edit items room address j j') :
    Kept edit (.list items) (room + 1) (.item before.length address)
      (.array (before ++ j :: after)) (.array (before ++ j' :: after)) where
  decode xs hxs := by
    exact (mapM_replace h.decode hxs).trans (congrArg some (edit.on_item ..).symm)
  fits hopen := Json.fits_replace_item (h.fits hopen)
  given := ⟨nofun, nofun⟩

theorem Kept.nullable {value : Form} (h : Kept edit value room address j j') :
    Kept edit (.nullable value) room address j j' where
  decode x hx := by
    have hnull : ∀ {j : Json}, j ≠ .null →
        (Form.nullable value).decode room j = (value.decode room j).map some := by
      intro j hj
      rw [Form.decode_eq, Form.decode_eq]
      cases j with
      | null => exact absurd rfl hj
      | _ => rfl
    rw [hnull h.given.1] at hx
    rw [hnull h.given.2]
    obtain ⟨y, hy, rfl⟩ := Option.map_eq_some_iff.mp hx
    rw [edit.on_given, h.decode y hy]
    rfl
  fits := h.fits
  given := h.given

theorem Kept.member (before after : List Json.Member)
    (hlayout : form.layout? (.object (before ++ (some slot.name, j) :: after)) = some layout)
    (hslot : slot ∈ layout.slots) (h : Kept edit slot.form room address j j') :
    Kept edit form (room + 1) (.field slot.name address)
      (.object (before ++ (some slot.name, j) :: after))
      (.object (before ++ (some slot.name, j') :: after)) := by
  have hclosed := (Form.wellLaid hlayout).closed
  refine kept_of_agree_field hlayout hslot (Json.agree_replace slot.name j j' before after) ?_
    (edit.on_field hlayout slot hslot address) ?_ ?_
  · exact fun hopen => Json.fits_replace_member (h.fits (hclosed hopen slot hslot))
  · exact fun other hname value => if_neg hname
  · intro hlength
    rw [Json.membersNamed_of_length_le_one j hlength,
      Json.membersNamed_of_length_le_one j' hlength]
    refine ⟨Nat.le_refl 1, fun value hvalue => ?_⟩
    rw [if_pos rfl]
    exact h.decode value hvalue

theorem Kept.position {index : Nat} (before after : List Json)
    (hlayout : form.layout? (.array (before ++ j :: after)) = some layout)
    (hlength : before.length = form.lead + index) (hslot : layout.slots[index]? = some slot)
    (h : Kept edit slot.form room address j j') :
    Kept edit form (room + 1) (.field slot.name address)
      (.array (before ++ j :: after)) (.array (before ++ j' :: after)) := by
  have hlaid := Form.wellLaid hlayout
  have hmem : slot ∈ layout.slots := List.mem_of_getElem? hslot
  have hfits : form.isOpen = false → (Json.array (before ++ j :: after)).fits (room + 1) = true →
      (Json.array (before ++ j' :: after)).fits (room + 1) = true :=
    fun hopen => Json.fits_replace_item (h.fits (hlaid.closed hopen slot hmem))
  refine ⟨fun x hx => ?_, hfits, nofun, nofun⟩
  obtain ⟨hadmits, hread⟩ := (Form.decode_eq_some_iff hlayout).mp hx
  refine (Form.decode_eq_some_iff (Form.layout?_replace_item j' (by omega) hlayout)).mpr
    ⟨Form.admits_of_fits hfits hadmits, ?_⟩
  -- Behind the tag, if there is one, the fields go by their positions.
  have hrecord : ∀ j : Json, form.record (.array (before ++ j :: after))
      = .array (before.drop form.lead ++ j :: after) := by
    intro j
    cases htagged : form.isTagged with
    | false => simp [Form.record, Form.lead, htagged]
    | true =>
      cases before with
      | nil =>
        simp only [Form.lead, htagged, if_true, List.length_nil] at hlength
        omega
      | cons first before => simp [Form.record, Form.lead, htagged]
  rw [hrecord] at hread ⊢
  have hindex : (before.drop form.lead).length = index := by
    rw [List.length_drop]
    omega
  refine Layout.read_replace_item hlaid.distinct (hindex ▸ hslot)
    (edit.on_field hlayout slot hmem address) ?_ ?_ hread
  · exact fun other _ hname value => if_neg hname
  · intro value hvalue
    rw [if_pos rfl]
    exact h.decode value hvalue

/-- **A change stays where it is.** If changes of some sort do to a decoded
value what an edit does, wherever they are made, then so they do within a
document. -/
theorem ChangedWithin.kept {Change : Form → Nat → Json → Json → Prop}
    (hchange : ∀ {form room j j'}, form.Levels room → Change form room j j' →
      Kept edit form room .here j j')
    (h : ChangedWithin Change form room address j j') (hlevels : form.Levels room) :
    Kept edit form room address j j' := by
  -- The levels are counted from the outside, the change is carried from the inside.
  induction h with
  | here hj => exact hchange hlevels hj
  | item before after _ ih => exact (ih (hlevels _ rfl)).item before after
  | given _ ih => exact (ih hlevels).nullable
  | member slot before after hlayout hslot _ ih =>
    exact (ih ((Form.wellLaid hlayout).levels hlevels _ hslot)).member before after hlayout hslot
  | position slot before after hlayout hlength hslot _ ih =>
    have hmem := List.mem_of_getElem? hslot
    exact (ih ((Form.wellLaid hlayout).levels hlevels _ hmem)).position before after hlayout
      hlength hslot

end

end ApiStubs
