/-
ApiStubs.Proofs.MemberTheorems — the fields of a record when its members
change.

What is read of an object are the members with known names, at most one for
each. So two objects whose members agree, but for those of one name, have
the same fields but for that one (`Agree.keeps_fields`), whatever the order of
the members and whatever else is among them. An array is a record whose
fields go by their position; to change one item is to change one field
(`fields_replace_item`).
-/
import Mathlib.Data.List.Perm.Basic
import ApiStubs.Json.Decoder

namespace ApiStubs.Json

variable {names : List String} {name : String} {room : Nat} {present : Fields}
  {members members' before after : List Member} {value value' : Json}

/-! ## Members of one name -/

theorem membersNamed_append (name : String) (members members' : List Member) :
    membersNamed (members ++ members') name
      = membersNamed members name ++ membersNamed members' name := by
  simp [membersNamed]

theorem membersNamed_cons (name : String) (member : Member) (members : List Member) :
    membersNamed (member :: members) name
      = if member.1 = some name then member.2 :: membersNamed members name
        else membersNamed members name := by
  by_cases h : member.1 = some name <;> simp [membersNamed, h]

theorem membersNamed_filter (name tag : String) (members : List Member) :
    membersNamed (members.filter (·.1 ≠ some tag)) name
      = if name = tag then [] else membersNamed members name := by
  simp only [membersNamed, List.filter_filter]
  split
  · next heq =>
    subst heq
    simp
  · next hne =>
    congr 2
    funext member
    by_cases hname : member.1 = some name
    · simp [hname, hne]
    · simp [hname]

/-- A member that is the only one of its name still is with another value. -/
theorem membersNamed_of_length_le_one (value' : Json)
    (h : (membersNamed (before ++ (some name, value) :: after) name).length ≤ 1) :
    membersNamed (before ++ (some name, value') :: after) name = [value'] := by
  simp only [membersNamed_append, membersNamed_cons, if_true, List.length_append,
    List.length_cons] at h ⊢
  have hbefore : membersNamed before name = [] := List.eq_nil_of_length_eq_zero (by omega)
  have hafter : membersNamed after name = [] := List.eq_nil_of_length_eq_zero (by omega)
  rw [hbefore, hafter, List.nil_append]

/-! ## Limits -/

theorem fits_cons_member (name : String) (room : Nat) (value : Json) (members : List Member) :
    (Json.object ((some name, value) :: members)).fits (room + 1) = true ↔
      value.fits room = true ∧ (Json.object members).fits (room + 1) = true := by
  simp [Json.fits]

theorem fits_of_perm (h : members.Perm members')
    (hfits : (Json.object members).fits (room + 1) = true) :
    (Json.object members').fits (room + 1) = true := by
  simp only [Json.fits, List.all_eq_true] at hfits ⊢
  exact fun member hmem => hfits member (h.mem_iff.mpr hmem)

theorem fits_replace_member (h : value.fits room = true → value'.fits room = true)
    (hfits : (Json.object (before ++ (some name, value) :: after)).fits (room + 1) = true) :
    (Json.object (before ++ (some name, value') :: after)).fits (room + 1) = true := by
  simp only [Json.fits, List.all_append, List.all_cons, Bool.and_eq_true] at hfits ⊢
  exact ⟨hfits.1, ⟨rfl, h hfits.2.1.2⟩, hfits.2.2⟩

theorem fits_replace_item {before after : List Json}
    (h : value.fits room = true → value'.fits room = true)
    (hfits : (Json.array (before ++ value :: after)).fits (room + 1) = true) :
    (Json.array (before ++ value' :: after)).fits (room + 1) = true := by
  simp only [Json.fits, List.all_append, List.all_cons, Bool.and_eq_true] at hfits ⊢
  exact ⟨hfits.1, h hfits.2.1, hfits.2.2⟩

/-! ## Records that are objects -/

theorem fields_object_eq_some_iff :
    Json.fields names (room + 1) (.object members) = some present ↔
      (∀ member ∈ members, member.1.isSome = true) ∧
        (∀ name ∈ names, (membersNamed members name).length ≤ 1) ∧
        (names.flatMap fun name => (membersNamed members name).map (name, ·)) = present := by
  simp only [Json.fields, knownMembers]
  split
  · next h =>
    simp only [Bool.and_eq_true, List.all_eq_true, decide_eq_true_eq] at h
    exact ⟨fun heq => ⟨h.1, h.2, Option.some.inj heq⟩, fun hok => congrArg some hok.2.2⟩
  · next h =>
    simp only [Bool.and_eq_true, List.all_eq_true, decide_eq_true_eq] at h
    simp only [reduceCtorEq, false_iff]
    exact fun hok => h ⟨hok.1, hok.2.1⟩

/-- The value of a field is that of the first member with its name. -/
theorem named_flatMap_members (h : name ∈ names) (members : List Member) :
    named (names.flatMap fun name => (membersNamed members name).map (name, ·)) name
      = (membersNamed members name).head? := by
  unfold named
  induction names with
  | nil => cases h
  | cons first names ih =>
    rw [List.flatMap_cons, List.find?_append]
    by_cases hfirst : first = name
    · subst hfirst
      cases hnamed : membersNamed members first with
      | nil =>
        by_cases hmem : first ∈ names
        · simpa [hnamed] using ih hmem
        · have hnone : ∀ other ∈ names, first ≠ other := fun other ho heq => hmem (heq ▸ ho)
          simp only [List.map_nil, List.find?_nil, Option.none_or, List.head?_nil,
            Option.map_eq_none_iff, List.find?_eq_none, List.mem_flatMap, List.mem_map]
          rintro _ ⟨other, ho, j, -, rfl⟩
          simpa using (hnone other ho).symm
      | cons j js => simp
    · have hmem : name ∈ names := (List.mem_cons.mp h).resolve_left (Ne.symm hfirst)
      have hskip : ((membersNamed members first).map (first, ·)).find? (·.1 = name) = none := by
        simp [List.find?_eq_none, hfirst]
      rw [hskip, Option.none_or]
      exact ih hmem

/-- Two lists of members agree but for those of one name, if there is an
exception at all. -/
structure Agree (exception : Option String) (members members' : List Member) : Prop where
  named : ∀ name, some name ≠ exception →
    (membersNamed members' name).Perm (membersNamed members name)
  texts : (∀ member ∈ members, member.1.isSome = true) →
    ∀ member ∈ members', member.1.isSome = true

theorem agree_of_perm (h : members.Perm members') : Agree none members members' where
  named _ _ := ((h.filter _).map _).symm
  texts htexts member hmem := htexts member (h.mem_iff.mpr hmem)

theorem agree_add (name : String) (value : Json) (members : List Member) :
    Agree (some name) members ((some name, value) :: members) where
  named other hother := by
    have hne : name ≠ other := fun heq => hother (heq ▸ rfl)
    simp [membersNamed_cons, hne]
  texts htexts member hmem := by
    rcases List.mem_cons.mp hmem with rfl | hmem
    · rfl
    · exact htexts member hmem

theorem agree_drop (name : String) (value : Json) (members : List Member) :
    Agree (some name) ((some name, value) :: members) members where
  named other hother := ((agree_add name value members).named other hother).symm
  texts htexts member hmem := htexts member (List.mem_cons_of_mem _ hmem)

theorem agree_replace (name : String) (value value' : Json) (before after : List Member) :
    Agree (some name) (before ++ (some name, value) :: after)
      (before ++ (some name, value') :: after) where
  named other hother := by
    have hne : name ≠ other := fun heq => hother (heq ▸ rfl)
    simp [membersNamed_append, membersNamed_cons, hne]
  texts htexts member hmem := by
    rcases List.mem_append.mp hmem with hmem | hmem
    · exact htexts member (List.mem_append_left _ hmem)
    · rcases List.mem_cons.mp hmem with rfl | hmem
      · rfl
      · exact htexts member (List.mem_append_right _ (List.mem_cons_of_mem _ hmem))

/-- Taking off the tag keeps the agreement, if the tag is no exception. -/
theorem Agree.filter {exception : Option String} (h : Agree exception members members')
    (tag : String) :
    Agree exception (members.filter (·.1 ≠ some tag)) (members'.filter (·.1 ≠ some tag)) where
  named name hname := by
    rw [membersNamed_filter, membersNamed_filter]
    split
    · exact .refl _
    · exact h.named name hname
  texts htexts member hmem := by
    have hall : ∀ member ∈ members, member.1.isSome = true := by
      intro member hmem
      by_cases htag : member.1 = some tag
      · rw [htag]
        rfl
      · exact htexts member (List.mem_filter.mpr ⟨hmem, by simpa using htag⟩)
    exact h.texts hall member (List.mem_of_mem_filter hmem)

/-- Where members agree so do the fields, but for the exception. -/
theorem Agree.keeps_fields {exception : Option String} (h : Agree exception members members')
    (hexception : ∀ name ∈ names, some name = exception →
      (membersNamed members' name).length ≤ 1)
    (hfields : Json.fields names (room + 1) (.object members) = some present) :
    ∃ present', Json.fields names (room + 1) (.object members') = some present'
      ∧ ∀ name ∈ names, some name ≠ exception → present'.get? name = present.get? name := by
  obtain ⟨htexts, hsingle, rfl⟩ := fields_object_eq_some_iff.mp hfields
  refine ⟨_, fields_object_eq_some_iff.mpr ⟨h.texts htexts, ?_, rfl⟩, ?_⟩
  · intro name hname
    by_cases hexc : some name = exception
    · exact hexception name hname hexc
    · exact (h.named name hexc).length_eq ▸ hsingle name hname
  · intro name hname hexc
    have hperm := h.named name hexc
    unfold Fields.get?
    rw [named_flatMap_members hname, named_flatMap_members hname]
    -- Of at most one member there is only one order.
    match hold : membersNamed members name, hsingle name hname with
    | [], _ =>
      rw [hold] at hperm
      rw [hperm.eq_nil]
    | [j], _ =>
      rw [hold] at hperm
      rw [List.perm_singleton.mp hperm]

theorem get?_of_fields (hname : name ∈ names)
    (hfields : Json.fields names (room + 1) (.object members) = some present) :
    present.get? name = (membersNamed members name).head? := by
  obtain ⟨-, -, rfl⟩ := fields_object_eq_some_iff.mp hfields
  exact named_flatMap_members hname members

/-! ## Records that are arrays -/

theorem named_cons (name : String) (first : String × Json) (rest : List (String × Json)) :
    named (first :: rest) name = if first.1 = name then some first.2 else named rest name := by
  unfold named
  by_cases h : first.1 = name <;> simp [h]

/-- An item is the value of the field at its position, and of no other. -/
theorem named_replace_item (value value' : Json) (after : List Json) (other : String) :
    {names : List String} → {before : List Json} → names.Nodup →
    names[before.length]? = some name →
      named (names.zip (before ++ value' :: after)) other
        = if name = other then some value'
          else named (names.zip (before ++ value :: after)) other
  | [], _, _, hat => by simp at hat
  | first :: names, [], _, hat => by
    obtain rfl : first = name := by simpa using hat
    simp only [List.nil_append, List.zip_cons_cons, named_cons]
    split <;> rfl
  | first :: names, item :: before, hnodup, hat => by
    obtain ⟨hfirst, hnodup⟩ := List.nodup_cons.mp hnodup
    have hat : names[before.length]? = some name := by simpa using hat
    have hne : first ≠ name := fun heq => hfirst (heq ▸ List.mem_of_getElem? hat)
    simp only [List.cons_append, List.zip_cons_cons, named_cons]
    rw [named_replace_item value value' after other hnodup hat]
    by_cases hother : first = other
    · have hname : name ≠ other := fun heq => hne (hother.trans heq.symm)
      simp [hother, hname]
    · simp [hother]

/-- To change an item is to change the field at its position. -/
theorem fields_replace_item {before after : List Json} (value' : Json) (hnodup : names.Nodup)
    (hat : names[before.length]? = some name)
    (hfields : Json.fields names (room + 1) (.array (before ++ value :: after)) = some present) :
    present.get? name = some value ∧
      ∃ present', Json.fields names (room + 1) (.array (before ++ value' :: after)) = some present'
        ∧ present'.get? name = some value'
        ∧ ∀ other, name ≠ other → present'.get? other = present.get? other := by
  simp only [Json.fields] at hfields ⊢
  split at hfields
  · next hlength =>
    obtain rfl := Option.some.inj hfields
    have hlength' : (before ++ value' :: after).length ≤ names.length := by simpa using hlength
    refine ⟨?_, _, if_pos hlength', ?_, fun other hne => ?_⟩
    · exact (named_replace_item value value after name hnodup hat).trans (if_pos rfl)
    · exact (named_replace_item value value' after name hnodup hat).trans (if_pos rfl)
    · exact (named_replace_item value value' after other hnodup hat).trans (if_neg hne)
  · cases hfields

end ApiStubs.Json
