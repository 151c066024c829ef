/-
ApiStubs.Proofs.LeafTheorems — the parts of a type that cannot be written.

A type expression is made of what its leaves write. `leaves` reads them off
a type from left to right, all of them, and `unwritable?` says which have
no expression of their own: no value, what the runtime supplies, and a
declared type that is neither an enumeration nor documented.

Writing takes short cuts around leaves: an array of anything, a list or a
map whose arguments say nothing. They look for the universal type or for
wildcards, which can always be written, so no leaf that cannot is passed
by. The theorem says this by a comparison: with a `blank`, a type that
writes nothing, in the place of the unwritable leaves, a type has the same
text and no problems. One relation between the two expressions, `Blanks`,
is carried through the type, by induction on the types inside it.
-/
import ApiStubs.Proofs.WrapperTheorems

namespace ApiStubs

namespace ValueType

/-! ## Leaves -/

/-- The types directly inside a type, from left to right. -/
def parts : ValueType → List ValueType
  | .array element => [element]
  | .map key value => key.toList ++ value.toList
  | .list element => element.toList
  | .optional inner => [inner]
  | .coerced inner => [inner]
  | .union alternatives => alternatives
  | _ => []

theorem sizeOf_lt_of_mem_parts {t part : ValueType} (h : part ∈ t.parts) :
    sizeOf part < sizeOf t := by
  cases t with
  | map key value =>
    simp only [parts, List.mem_append, Option.mem_toList] at h
    rcases h with rfl | rfl <;> simp only [map.sizeOf_spec, Option.some.sizeOf_spec] <;> omega
  | list element =>
    simp only [parts, Option.mem_toList] at h
    subst h
    simp only [list.sizeOf_spec, Option.some.sizeOf_spec]
    omega
  | union alternatives =>
    have hlt : sizeOf part < sizeOf alternatives := List.sizeOf_lt_of_mem h
    simp only [union.sizeOf_spec]
    omega
  | _ => simp_all [parts]

/-- Induction on the types inside a type. -/
theorem partsInduction {P : ValueType → Prop}
    (h : ∀ t : ValueType, (∀ part ∈ t.parts, P part) → P t) (t : ValueType) : P t :=
  h t fun part _hpart => partsInduction h part
termination_by t
decreasing_by exact sizeOf_lt_of_mem_parts _hpart

mutual

/-- The leaves of a type, from left to right: a key before its value, and
alternatives in order. -/
def leaves : ValueType → List ValueType
  | .array element => element.leaves
  | .map key value => leavesArgument key ++ leavesArgument value
  | .list element => leavesArgument element
  | .optional inner => inner.leaves
  | .coerced inner => inner.leaves
  | .union alternatives => leavesAll alternatives
  | t => [t]

/-- The leaves of a type argument. -/
def leavesArgument : Option ValueType → List ValueType
  | none => []
  | some t => t.leaves

/-- The leaves of some types, one after the other. -/
def leavesAll : List ValueType → List ValueType
  | [] => []
  | t :: ts => t.leaves ++ leavesAll ts

end

mutual

/-- The type with its leaves replaced. -/
def mapLeaves (f : ValueType → ValueType) : ValueType → ValueType
  | .array element => .array (element.mapLeaves f)
  | .map key value => .map (mapLeavesArgument f key) (mapLeavesArgument f value)
  | .list element => .list (mapLeavesArgument f element)
  | .optional inner => .optional (inner.mapLeaves f)
  | .coerced inner => .coerced (inner.mapLeaves f)
  | .union alternatives => .union (mapLeavesAll f alternatives)
  | t => f t

/-- A type argument with its leaves replaced. -/
def mapLeavesArgument (f : ValueType → ValueType) : Option ValueType → Option ValueType
  | none => none
  | some t => some (t.mapLeaves f)

/-- Types with their leaves replaced, one by one. -/
def mapLeavesAll (f : ValueType → ValueType) : List ValueType → List ValueType
  | [] => []
  | t :: ts => t.mapLeaves f :: mapLeavesAll f ts

end

/-- What a leaf is reported as if it cannot be written: no value, what the
runtime supplies, or a declared type that is neither an enumeration nor
has a name. -/
def unwritable? (names : TypeNames) : ValueType → Option String
  | .void => some "Void"
  | .context => some "Context"
  | .named id => if names.isEnum id || (names.name? id).isSome then none else some id
  | _ => none

/-- The type with `blank` in the place of every leaf that cannot be
written. -/
def blanked (names : TypeNames) (t blank : ValueType) : ValueType :=
  t.mapLeaves fun leaf => if (leaf.unwritable? names).isSome then blank else leaf

end ValueType

/-! ## Texts with gaps -/

namespace TypeText

/-- The first text has gaps, which are reported as `missing`; the second
one is the same without reports. -/
structure Blanks (missing : List String) (a b : TypeText) : Prop where
  unknown : a.unknown = missing
  blank : b = plain a.text

variable {missing missing' : List String} {a b a' b' : TypeText}

theorem blanks_plain (s : String) : Blanks [] (plain s) (plain s) := ⟨rfl, rfl⟩

theorem Blanks.append (h : Blanks missing a b) (h' : Blanks missing' a' b') :
    Blanks (missing ++ missing') (a ++ a') (b ++ b') where
  unknown := by
    show a.unknown ++ a'.unknown = missing ++ missing'
    rw [h.unknown, h'.unknown]
  blank := by
    rw [h.blank, h'.blank]
    rfl

theorem Blanks.sequence (h : Blanks missing a b) :
    Blanks missing (sequence a) (sequence b) := by
  simpa [TypeText.sequence] using
    ((blanks_plain "\x7b ").append h).append (blanks_plain "... \x7d")

theorem Blanks.entries (h : Blanks missing a b) (h' : Blanks missing' a' b') :
    Blanks (missing ++ missing') (entries a a') (entries b b') := by
  simpa [TypeText.entries] using ((((blanks_plain "\x7b [").append h).append
    (blanks_plain "] = ")).append h').append (blanks_plain " \x7d")

end TypeText

/-! ## Blank leaves -/

namespace ValueType

open TypeText

variable {names : TypeNames} {blank : ValueType}

theorem isUniversal_iff {t : ValueType} : t.isUniversal = true ↔ t = .any := by
  cases t <;> simp [isUniversal]

theorem isWildcard_iff {t : ValueType} : t.isWildcard = true ↔ t = .wildcard := by
  cases t <;> simp [isWildcard]

/-- The types that short cuts look for are where they were: neither is a
blank, since a blank writes nothing. -/
theorem blanked_eq_iff (hblank : blank.write names = plain "") {leaf : ValueType}
    (hleaf : leaf = .any ∨ leaf = .wildcard) (t : ValueType) :
    t.blanked names blank = leaf ↔ t = leaf := by
  have hne : blank ≠ leaf := by
    rintro rfl
    rcases hleaf with rfl | rfl <;> simp [write, plain] at hblank
  cases t with
  | named id =>
    simp only [blanked, mapLeaves]
    split
    · rcases hleaf with rfl | rfl <;> simp [hne]
    · rfl
  | void => rcases hleaf with rfl | rfl <;> simpa [blanked, mapLeaves, unwritable?] using hne
  | context => rcases hleaf with rfl | rfl <;> simpa [blanked, mapLeaves, unwritable?] using hne
  | _ => rcases hleaf with rfl | rfl <;> simp [blanked, mapLeaves, unwritable?]

theorem isUniversal_blanked (hblank : blank.write names = plain "") (t : ValueType) :
    (t.blanked names blank).isUniversal = t.isUniversal := by
  rw [Bool.eq_iff_iff, isUniversal_iff, isUniversal_iff, blanked_eq_iff hblank (.inl rfl)]

theorem isWildcard_blanked (hblank : blank.write names = plain "") (t : ValueType) :
    (t.blanked names blank).isWildcard = t.isWildcard := by
  rw [Bool.eq_iff_iff, isWildcard_iff, isWildcard_iff, blanked_eq_iff hblank (.inr rfl)]

/-- The expressions of a type and of the type with blanks in it. -/
def WritesBlanked (names : TypeNames) (blank t : ValueType) : Prop :=
  Blanks (t.leaves.filterMap (unwritable? names)) (t.write names)
    ((t.blanked names blank).write names)

theorem writesBlanked_named (hblank : blank.write names = plain "") (id : String) :
    WritesBlanked names blank (.named id) := by
  unfold WritesBlanked
  cases hname : names.name? id <;> cases henum : names.isEnum id <;>
    simp [hblank, hname, henum, blanked, mapLeaves, leaves, unwritable?, write,
      TypeText.named, TypeText.missing] <;>
    exact ⟨rfl, rfl⟩

/-! ### Type arguments -/

theorem isNone_writeArgument_blanked (hblank : blank.write names = plain "")
    (argument : Option ValueType) :
    (writeArgument names (argument.map (·.blanked names blank))).isNone
      = (writeArgument names argument).isNone := by
  rw [isNone_writeArgument, isNone_writeArgument]
  cases argument with
  | none => rfl
  | some t => exact isWildcard_blanked hblank t

/-- An argument that says nothing is erased or a wildcard, so nothing of it
is missing. -/
theorem eq_wildcard_of_isNone {argument : Option ValueType}
    (h : (writeArgument names argument).isNone = true) :
    argument = none ∨ argument = some .wildcard := by
  cases argument with
  | none => exact .inl rfl
  | some t =>
    rw [isNone_writeArgument] at h
    exact .inr (congrArg some (isWildcard_iff.mp h))

theorem leavesArgument_of_isNone {argument : Option ValueType}
    (h : (writeArgument names argument).isNone = true) :
    (leavesArgument argument).filterMap (unwritable? names) = [] := by
  rcases eq_wildcard_of_isNone h with rfl | rfl <;> rfl

theorem blanks_writeArgument (hblank : blank.write names = plain "")
    {argument : Option ValueType} (h : ∀ t ∈ argument, WritesBlanked names blank t) :
    Blanks ((leavesArgument argument).filterMap (unwritable? names))
      ((writeArgument names argument).getD (plain "any"))
      ((writeArgument names (argument.map (·.blanked names blank))).getD (plain "any")) := by
  cases argument with
  | none => exact blanks_plain "any"
  | some t =>
    have hblanked := isWildcard_blanked hblank t
    cases hwildcard : t.isWildcard with
    | true =>
      obtain rfl := isWildcard_iff.mp hwildcard
      exact blanks_plain "any"
    | false =>
      rw [Option.map_some, writeArgument_some hwildcard,
        writeArgument_some (hblanked.trans hwildcard)]
      exact h t rfl

theorem blanked_list (element : Option ValueType) :
    (list element).blanked names blank = list (element.map (·.blanked names blank)) := by
  cases element <;> rfl

theorem blanked_map (key value : Option ValueType) :
    (map key value).blanked names blank
      = map (key.map (·.blanked names blank)) (value.map (·.blanked names blank)) := by
  cases key <;> cases value <;> rfl

/-! ### Whole types -/

theorem writesBlanked_array (hblank : blank.write names = plain "") {element : ValueType}
    (h : WritesBlanked names blank element) : WritesBlanked names blank (array element) := by
  have huniversal := isUniversal_blanked hblank element
  show Blanks (element.leaves.filterMap (unwritable? names)) ((array element).write names)
    ((array (element.blanked names blank)).write names)
  rw [write, write, huniversal]
  split
  · next hany =>
    obtain rfl := isUniversal_iff.mp hany
    exact blanks_plain "any..."
  · exact h.sequence

theorem writesBlanked_list (hblank : blank.write names = plain "") {element : Option ValueType}
    (h : ∀ t ∈ element, WritesBlanked names blank t) :
    WritesBlanked names blank (list element) := by
  unfold WritesBlanked
  rw [leaves, blanked_list, write_list, write_list, isNone_writeArgument_blanked hblank]
  split
  · next hnone =>
    rw [leavesArgument_of_isNone hnone]
    exact blanks_plain "table"
  · exact (blanks_writeArgument hblank h).sequence

theorem writesBlanked_map (hblank : blank.write names = plain "") {key value : Option ValueType}
    (hkey : ∀ t ∈ key, WritesBlanked names blank t)
    (hvalue : ∀ t ∈ value, WritesBlanked names blank t) :
    WritesBlanked names blank (map key value) := by
  unfold WritesBlanked
  rw [leaves, List.filterMap_append, blanked_map, write, write, table_eq, table_eq,
    isNone_writeArgument_blanked hblank, isNone_writeArgument_blanked hblank]
  split
  · next hnone =>
    rw [Bool.and_eq_true] at hnone
    rw [leavesArgument_of_isNone hnone.1, leavesArgument_of_isNone hnone.2]
    exact blanks_plain "table"
  · exact (blanks_writeArgument hblank hkey).entries (blanks_writeArgument hblank hvalue)

theorem writesBlanked_alternatives : ∀ {ts : List ValueType},
    (∀ t ∈ ts, WritesBlanked names blank t) →
      Blanks ((leavesAll ts).filterMap (unwritable? names)) (writeAlternatives names ts)
        (writeAlternatives names (ts.map (·.blanked names blank)))
  | [], _ => blanks_plain ""
  | [t], h => by
    simpa [leavesAll, writeAlternatives, WritesBlanked] using h t List.mem_cons_self
  | t :: u :: ts, h => by
    obtain ⟨hfirst, hrest⟩ := List.forall_mem_cons.mp h
    have hall := (hfirst.append (blanks_plain "|")).append (writesBlanked_alternatives hrest)
    rw [leavesAll, List.filterMap_append, List.map_cons, List.map_cons,
      writeAlternatives_cons_cons, writeAlternatives_cons_cons]
    simpa using hall

theorem blanked_union (alternatives : List ValueType) :
    (union alternatives).blanked names blank
      = union (alternatives.map (·.blanked names blank)) := by
  have hall : ∀ ts : List ValueType, mapLeavesAll (fun leaf =>
      if (leaf.unwritable? names).isSome then blank else leaf) ts
        = ts.map (·.blanked names blank) := by
    intro ts
    induction ts with
    | nil => rfl
    | cons t ts ih => rw [mapLeavesAll, ih, List.map_cons]; rfl
  rw [blanked, mapLeaves, hall]

/-- Every type writes the same with blanks in the place of what it cannot
write, and reports nothing else. -/
theorem writesBlanked (hblank : blank.write names = plain "") (t : ValueType) :
    WritesBlanked names blank t := by
  induction t using partsInduction with
  | h t ih =>
    cases t with
    | array element => exact writesBlanked_array hblank (ih element List.mem_cons_self)
    | map key value =>
      refine writesBlanked_map hblank (fun t ht => ih t ?_) (fun t ht => ih t ?_)
      · exact List.mem_append_left _ (Option.mem_toList.mpr ht)
      · exact List.mem_append_right _ (Option.mem_toList.mpr ht)
    | list element =>
      exact writesBlanked_list hblank fun t ht => ih t (Option.mem_toList.mpr ht)
    | optional inner =>
      have hinner := ih inner List.mem_cons_self
      simpa [WritesBlanked, leaves, blanked, mapLeaves, write] using hinner
    | coerced inner =>
      have hinner := ih inner List.mem_cons_self
      simpa [WritesBlanked, leaves, blanked, mapLeaves, write] using hinner
    | union alternatives =>
      unfold WritesBlanked
      rw [leaves, blanked_union, write, write]
      exact writesBlanked_alternatives ih
    | named id => exact writesBlanked_named hblank id
    | void => exact ⟨rfl, hblank⟩
    | context => exact ⟨rfl, hblank⟩
    | number repr boxed => exact blanks_plain "number"
    | boolean boxed => exact blanks_plain "boolean"
    | string repr => exact blanks_plain "string"
    | any => exact blanks_plain "any"
    | wildcard => exact blanks_plain "any"
    | multiResult => exact blanks_plain "any..."
    | arguments => exact blanks_plain "any..."

/-! ## Reports -/

/-- **What cannot be written is reported, leaf by leaf.** The problems of a
type are one for each leaf that cannot be written, from left to right; and
the text of a type is that of the same type with something that writes
nothing in the place of these leaves, which has no problems at all. -/
theorem unwritable_leaves_reported (names : TypeNames) (t : ValueType) :
    (∀ subject, typeProblems subject (t.write names)
      = (t.leaves.filterMap (unwritable? names)).map fun what =>
          { level := .error, subject, message := "Cannot handle type " ++ what }) ∧
    ∀ blank : ValueType, blank.write names = plain "" →
      (t.blanked names blank).write names = plain (t.write names).text := by
  refine ⟨fun subject => ?_, fun blank hblank => (writesBlanked hblank t).blank⟩
  -- A union of no types writes nothing.
  have hempty : (union []).write names = plain "" := by simp [write, writeAlternatives]
  rw [typeProblems, (writesBlanked hempty t).unknown]

/-- A map with three gaps, the last two of them after an array of anything
and a list of wildcards. -/
def gaps : ValueType :=
  .map (some .void)
    (some (.union [.array .any, .list (some .wildcard), .array (.optional (.named "a.B")),
      .map none (some .context)]))

def user : Subject := ⟨"pkg.T#f", ⟨"T.java", 1, 0⟩⟩

theorem gaps_reported :
    (union []).write unnamed = plain "" ∧
    (typeProblems user (gaps.write unnamed)).map (·.message)
      = ["Cannot handle type Void", "Cannot handle type a.B", "Cannot handle type Context"] ∧
    (gaps.blanked unnamed (union [])).write unnamed
      = plain "\x7b [] = any...|table|\x7b ... \x7d|\x7b [any] =  \x7d \x7d" := by
  have hempty : (union []).write unnamed = plain "" := by decide
  obtain ⟨hreported, hblanked⟩ := unwritable_leaves_reported unnamed gaps
  refine ⟨hempty, ?_, (hblanked (union []) hempty).trans (by decide)⟩
  rw [hreported]
  decide

end ValueType

end ApiStubs
