/-
ApiStubs.Proofs.WrapperTheorems — how far wrappers can be seen through.

An optional or coerced type should be written and judged like the type
inside it. `unwrapped` takes the wrappers off at every depth, and this
module compares a type with what is left of it.

Some questions look through wrappers and have one answer for both: which
parts cannot be written, and whether the type is known. The others test
the outermost layer only, so that a wrapper right there `hides` a type
that would pass. `disguised` collects the places inside a type where this
changes the written expression. The expression gets longer there, never
shorter (`stretched_write`), so no two such places make up for each other
and the condition is exact.
-/
import ApiStubs.Stub.Function

namespace ApiStubs

namespace ValueType

/-! ## Types without wrappers -/

mutual

/-- The type without the wrappers around it and in it, at every depth. -/
def unwrapped : ValueType → ValueType
  | .optional inner => inner.unwrapped
  | .coerced inner => inner.unwrapped
  | .array element => .array element.unwrapped
  | .map key value => .map (unwrappedArgument key) (unwrappedArgument value)
  | .list element => .list (unwrappedArgument element)
  | .union alternatives => .union (unwrappedAll alternatives)
  | t => t

/-- A type argument without wrappers. -/
def unwrappedArgument : Option ValueType → Option ValueType
  | none => none
  | some t => some t.unwrapped

/-- Types without wrappers, one by one. -/
def unwrappedAll : List ValueType → List ValueType
  | [] => []
  | t :: ts => t.unwrapped :: unwrappedAll ts

end

/-- Is the outermost layer a wrapper? -/
def isWrapper : ValueType → Bool
  | .optional _ => true
  | .coerced _ => true
  | _ => false

/-- Induction on the wrappers around a type. -/
theorem wrapperInduction {P : ValueType → Prop} (optional : ∀ inner, P inner → P (.optional inner))
    (coerced : ∀ inner, P inner → P (.coerced inner)) (bare : ∀ t, t.isWrapper = false → P t) :
    ∀ t, P t
  | .optional inner => optional inner (wrapperInduction optional coerced bare inner)
  | .coerced inner => coerced inner (wrapperInduction optional coerced bare inner)
  | .void | .number _ _ | .boolean _ | .string _ | .any | .wildcard | .array _ | .map _ _
  | .list _ | .union _ | .multiResult | .arguments | .context | .named _ => bare _ rfl

theorem base_eq_self {t : ValueType} (h : t.isWrapper = false) : t.base = t := by
  cases t with
  | optional inner => cases h
  | coerced inner => cases h
  | _ => rfl

theorem isWrapper_base (t : ValueType) : t.base.isWrapper = false :=
  wrapperInduction (fun _ ih => ih) (fun _ ih => ih) (fun _ h => (base_eq_self h).symm ▸ h) t

/-- What passes wrappers by is the same for the type inside them. -/
theorem map_base {α : Type} {f : ValueType → α} (hoptional : ∀ t, f (.optional t) = f t)
    (hcoerced : ∀ t, f (.coerced t) = f t) (t : ValueType) : f t.base = f t :=
  wrapperInduction (fun inner ih => ih.trans (hoptional inner).symm)
    (fun inner ih => ih.trans (hcoerced inner).symm) (fun _ h => congrArg f (base_eq_self h)) t

theorem unwrapped_base (t : ValueType) : t.base.unwrapped = t.unwrapped :=
  map_base (fun _ => by rw [unwrapped]) (fun _ => by rw [unwrapped]) t

theorem write_base (names : TypeNames) (t : ValueType) : t.base.write names = t.write names :=
  map_base (fun _ => by rw [write]) (fun _ => by rw [write]) t

/-! ## Tests of the outermost layer -/

/-- Is the type a wildcard? -/
def isWildcard : ValueType → Bool
  | .wildcard => true
  | _ => false

/-- Does a wrapper hide that the type passes a test? -/
def hides (test : ValueType → Bool) (t : ValueType) : Bool :=
  t.isWrapper && test t.base

/-- A test that no wrapper passes: the type inside passes it if the type
itself does, or hides it. -/
theorem test_base {test : ValueType → Bool} (htest : ∀ t, t.isWrapper = true → test t = false)
    (t : ValueType) : test t.base = (test t || t.hides test) := by
  unfold hides
  cases hwrapper : t.isWrapper with
  | false => simp [base_eq_self hwrapper]
  | true => simp [htest t hwrapper]

/-- A test that looks at the constructor only, and that no wrapper
passes. -/
structure LooksOutside (test : ValueType → Bool) : Prop where
  wrapper : ∀ t, t.isWrapper = true → test t = false
  bare : ∀ t, t.isWrapper = false → test t.unwrapped = test t

theorem LooksOutside.unwrapped {test : ValueType → Bool} (htest : LooksOutside test)
    (t : ValueType) : test t.unwrapped = (test t || t.hides test) := by
  rw [← unwrapped_base, htest.bare t.base (isWrapper_base t), test_base htest.wrapper]

theorem looksOutside_isUniversal : LooksOutside isUniversal where
  wrapper t h := by cases t <;> simp_all [isWrapper, isUniversal]
  bare t h := by cases t <;> simp_all [isWrapper, ValueType.unwrapped, isUniversal]

theorem looksOutside_isWildcard : LooksOutside isWildcard where
  wrapper t h := by cases t <;> simp_all [isWrapper, isWildcard]
  bare t h := by cases t <;> simp_all [isWrapper, ValueType.unwrapped, isWildcard]

theorem looksOutside_isIrrelevant : LooksOutside isIrrelevant where
  wrapper t h := by cases t <;> simp_all [isWrapper, isIrrelevant]
  bare t h := by cases t <;> simp_all [isWrapper, ValueType.unwrapped, isIrrelevant]

/-- Is a known type known without its wrappers? The question is asked of
the type inside them already. -/
theorem isKnown_unwrapped (t : ValueType) : t.unwrapped.isKnown = t.isKnown := by
  have hbare : ∀ t : ValueType, t.isWrapper = false → t.unwrapped.isKnown = t.isKnown := by
    intro t h
    cases t <;> simp_all [isWrapper, unwrapped, isKnown, base]
  rw [← unwrapped_base, hbare t.base (isWrapper_base t)]
  exact map_base (fun _ => rfl) (fun _ => rfl) t

/-- Does a wrapper hide that the elements of an array may be anything? -/
def hidesElements : ValueType → Bool
  | .array element => element.hides isUniversal
  | _ => false

theorem isAny_of_wrapper {t : ValueType} (h : t.isWrapper = true) : t.isAny = false := by
  cases t <;> simp_all [isWrapper, isAny]

theorem isAny_array (element : ValueType) : (array element).isAny = element.isUniversal := by
  cases element <;> rfl

theorem isAny_unwrapped_of_bare {t : ValueType} (h : t.isWrapper = false) :
    t.unwrapped.isAny = (t.isAny || t.hidesElements) := by
  cases t with
  | array element =>
    rw [unwrapped, isAny_array, isAny_array, looksOutside_isUniversal.unwrapped]
    rfl
  | optional inner => cases h
  | coerced inner => cases h
  | _ => simp [unwrapped, isAny, hidesElements]

/-- A type that may be anything is no wrapper, and has none around its
elements. -/
theorem hides_of_isAny {t : ValueType} (h : t.isAny = true) :
    t.hides isAny = false ∧ t.base.hidesElements = false := by
  cases hwrapper : t.isWrapper with
  | true => cases (isAny_of_wrapper hwrapper).symm.trans h
  | false =>
    rw [hides, hwrapper, base_eq_self hwrapper]
    refine ⟨rfl, ?_⟩
    cases t with
    | array element =>
      rw [isAny_array] at h
      cases element <;> simp_all [isUniversal, hidesElements, hides, isWrapper]
    | _ => rfl

theorem isAny_unwrapped (t : ValueType) :
    t.unwrapped.isAny = (t.isAny || t.hides isAny || t.base.hidesElements) := by
  rw [← unwrapped_base, isAny_unwrapped_of_bare (isWrapper_base t),
    test_base fun _ => isAny_of_wrapper]

/-! ## Expressions -/

/-- Does a wrapper hide that neither argument of a map says anything? -/
def hidesBoth (key value : Option ValueType) : Bool :=
  key.all (·.base.isWildcard) && value.all (·.base.isWildcard)
    && (key.any (hides isWildcard) || value.any (hides isWildcard))

mutual

/-- Is there a wrapper in the type that changes its expression: around the
universal type in an array, or around a wildcard in a list or a map that
would not say anything about its contents? -/
def disguised : ValueType → Bool
  | .optional inner => inner.disguised
  | .coerced inner => inner.disguised
  | .array element => element.hides isUniversal || element.disguised
  | .map key value =>
    hidesBoth key value || (disguisedArgument key || disguisedArgument value)
  | .list element => element.any (hides isWildcard) || disguisedArgument element
  | .union alternatives => disguisedAny alternatives
  | _ => false

/-- Is a type argument disguised? -/
def disguisedArgument : Option ValueType → Bool
  | none => false
  | some t => t.disguised

/-- Is one of the types disguised? -/
def disguisedAny : List ValueType → Bool
  | [] => false
  | t :: ts => t.disguised || disguisedAny ts

end

theorem disguised_base (t : ValueType) : t.base.disguised = t.disguised :=
  map_base (fun _ => by rw [disguised]) (fun _ => by rw [disguised]) t

end ValueType

/-! ### Longer expressions -/

/-- The same parts could not be written, and the text is longer if
`longer`, else it is the same. -/
structure TypeText.Stretched (longer : Bool) (a b : TypeText) : Prop where
  unknown : a.unknown = b.unknown
  text : if longer then b.text.length < a.text.length else a.text = b.text

namespace TypeText

variable {a b a' b' : TypeText} {longer longer' : Bool}

theorem Stretched.refl (a : TypeText) : Stretched false a a := ⟨rfl, rfl⟩

theorem Stretched.length_le (h : Stretched longer a b) : b.text.length ≤ a.text.length := by
  have htext := h.text
  split at htext
  · exact Nat.le_of_lt htext
  · exact Nat.le_of_eq (congrArg String.length htext.symm)

theorem Stretched.append (h : Stretched longer a b) (h' : Stretched longer' a' b') :
    Stretched (longer || longer') (a ++ a') (b ++ b') where
  unknown := by
    show a.unknown ++ a'.unknown = b.unknown ++ b'.unknown
    rw [h.unknown, h'.unknown]
  text := by
    have hle := h.length_le
    have hle' := h'.length_le
    have htext := h.text
    have htext' := h'.text
    show if _ then (b.text ++ b'.text).length < (a.text ++ a'.text).length
      else a.text ++ a'.text = b.text ++ b'.text
    rw [String.length_append, String.length_append]
    -- Neither part gets shorter, so one that is longer makes the whole longer.
    cases longer <;> cases longer' <;> simp_all
    omega

theorem Stretched.text_eq_iff (h : Stretched longer a b) : a.text = b.text ↔ longer = false := by
  have htext := h.text
  cases longer with
  | false => simpa using htext
  | true =>
    simp only [if_true] at htext
    simp only [Bool.true_eq_false, iff_false]
    intro heq
    exact absurd (congrArg String.length heq) (by omega)

theorem Stretched.sequence (h : Stretched longer a b) :
    Stretched longer (sequence a) (sequence b) := by
  simpa [TypeText.sequence] using
    ((Stretched.refl (plain "\x7b ")).append h).append (.refl (plain "... \x7d"))

/-- A table with both of its arguments written out. -/
def entries (key value : TypeText) : TypeText :=
  plain "\x7b [" ++ key ++ plain "] = " ++ value ++ plain " \x7d"

theorem table_eq (key value : Option TypeText) :
    table key value
      = if key.isNone && value.isNone then plain "table"
        else entries (key.getD (plain "any")) (value.getD (plain "any")) := by
  cases key <;> cases value <;> rfl

theorem Stretched.entries (h : Stretched longer a b) (h' : Stretched longer' a' b') :
    Stretched (longer || longer') (entries a a') (entries b b') := by
  simpa [TypeText.entries] using ((((Stretched.refl (plain "\x7b [")).append h).append
    (.refl (plain "] = "))).append h').append (.refl (plain " \x7d"))

/-- Two expressions with a short form, which the second takes also where
that is hidden from the first. -/
theorem Stretched.shortcut {form : TypeText} {short hidden : Bool} (h : Stretched longer a b)
    (hapart : short = true → hidden = false)
    (hform : (short || hidden) = true →
      longer = false ∧ a.unknown = form.unknown ∧ form.text.length < a.text.length) :
    Stretched (hidden || longer) (if short then form else a)
      (if short || hidden then form else b) := by
  cases hshort : short with
  | true =>
    obtain ⟨hlonger, -, -⟩ := hform (by rw [hshort]; rfl)
    simpa [hapart hshort, hlonger] using Stretched.refl form
  | false =>
    cases hhidden : hidden with
    | false => simpa using h
    | true =>
      obtain ⟨-, hunknown, hlength⟩ := hform (by rw [hhidden, Bool.or_true])
      exact ⟨by simpa using hunknown, by simpa using hlength⟩

end TypeText

namespace ValueType

open TypeText

variable {names : TypeNames}

theorem write_of_isUniversal (names : TypeNames) {t : ValueType} (h : t.base.isUniversal = true) :
    t.write names = plain "any" ∧ t.disguised = false := by
  rw [← write_base, ← disguised_base]
  cases hbase : t.base <;> simp_all [isUniversal, write, disguised]

theorem write_of_isWildcard (names : TypeNames) {t : ValueType} (h : t.base.isWildcard = true) :
    t.write names = plain "any" ∧ t.disguised = false := by
  rw [← write_base, ← disguised_base]
  cases hbase : t.base <;> simp_all [isWildcard, write, disguised]

/-! ### Type arguments -/

theorem isNone_writeArgument (argument : Option ValueType) :
    (writeArgument names argument).isNone = argument.all isWildcard := by
  cases argument with
  | none => rfl
  | some t => cases t <;> rfl

theorem all_isWildcard_base (argument : Option ValueType) :
    argument.all (·.base.isWildcard)
      = (argument.all isWildcard || argument.any (hides isWildcard)) := by
  cases argument with
  | none => rfl
  | some t => exact test_base looksOutside_isWildcard.wrapper t

theorem isNone_writeArgument_unwrapped (argument : Option ValueType) :
    (writeArgument names (unwrappedArgument argument)).isNone
      = argument.all (·.base.isWildcard) := by
  rw [isNone_writeArgument, all_isWildcard_base]
  cases argument with
  | none => rw [unwrappedArgument]; rfl
  | some t => rw [unwrappedArgument]; exact looksOutside_isWildcard.unwrapped t

theorem any_hides_of_all {argument : Option ValueType} (h : argument.all isWildcard = true) :
    argument.any (hides isWildcard) = false := by
  cases argument with
  | none => rfl
  | some t => cases t <;> simp_all [isWildcard, hides, isWrapper]

theorem getD_writeArgument_of_vague (names : TypeNames) {argument : Option ValueType}
    (h : argument.all (·.base.isWildcard) = true) :
    (writeArgument names argument).getD (plain "any") = plain "any"
      ∧ disguisedArgument argument = false := by
  cases argument with
  | none => exact ⟨rfl, by rw [disguisedArgument]⟩
  | some t =>
    obtain ⟨hwrite, hplain⟩ := write_of_isWildcard names h
    refine ⟨?_, by rw [disguisedArgument, hplain]⟩
    unfold writeArgument
    split
    · rfl
    · rfl
    · next heq =>
      cases heq
      exact hwrite

theorem writeArgument_some {t : ValueType} (h : t.isWildcard = false) :
    writeArgument names (some t) = some (t.write names) := by
  cases t <;> simp_all [isWildcard, writeArgument]

theorem stretched_writeArgument {argument : Option ValueType}
    (h : ∀ t ∈ argument, Stretched t.disguised (t.write names) (t.unwrapped.write names)) :
    Stretched (disguisedArgument argument) ((writeArgument names argument).getD (plain "any"))
      ((writeArgument names (unwrappedArgument argument)).getD (plain "any")) := by
  cases hvague : argument.all (·.base.isWildcard) with
  | true =>
    obtain ⟨hany, hplain⟩ := getD_writeArgument_of_vague names hvague
    have hnone : writeArgument names (unwrappedArgument argument) = none :=
      Option.isNone_iff_eq_none.mp ((isNone_writeArgument_unwrapped argument).trans hvague)
    rw [hany, hplain, hnone]
    exact .refl _
  | false =>
    cases argument with
    | none => cases hvague
    | some t =>
      have hboth : t.isWildcard = false ∧ t.unwrapped.isWildcard = false := by
        rw [looksOutside_isWildcard.unwrapped, ← test_base looksOutside_isWildcard.wrapper]
        have hbase : t.base.isWildcard = false := hvague
        rw [test_base looksOutside_isWildcard.wrapper, Bool.or_eq_false_iff] at hbase
        exact ⟨hbase.1, hvague⟩
      rw [unwrappedArgument, writeArgument_some hboth.1, writeArgument_some hboth.2]
      exact h t rfl

/-! ### Whole types -/

theorem stretched_array {element : ValueType}
    (h : Stretched element.disguised (element.write names) (element.unwrapped.write names)) :
    Stretched (array element).disguised ((array element).write names)
      ((array element).unwrapped.write names) := by
  rw [unwrapped, write, write, looksOutside_isUniversal.unwrapped, disguised]
  refine h.sequence.shortcut ?_ ?_
  · intro huniversal
    cases element <;> simp_all [isUniversal, hides, isWrapper]
  · intro huniversal
    rw [← test_base looksOutside_isUniversal.wrapper] at huniversal
    obtain ⟨hwrite, hplain⟩ := write_of_isUniversal names huniversal
    rw [hwrite, hplain]
    decide

theorem write_list (element : Option ValueType) :
    (list element).write names
      = if (writeArgument names element).isNone then plain "table"
        else .sequence ((writeArgument names element).getD (plain "any")) := by
  rw [write]
  cases writeArgument names element <;> rfl

theorem stretched_list {element : Option ValueType}
    (h : ∀ t ∈ element, Stretched t.disguised (t.write names) (t.unwrapped.write names)) :
    Stretched (list element).disguised ((list element).write names)
      ((list element).unwrapped.write names) := by
  rw [unwrapped, write_list, write_list, isNone_writeArgument, isNone_writeArgument_unwrapped,
    all_isWildcard_base, disguised]
  refine (stretched_writeArgument h).sequence.shortcut any_hides_of_all fun hvague => ?_
  rw [← all_isWildcard_base] at hvague
  obtain ⟨hany, hplain⟩ := getD_writeArgument_of_vague names hvague
  rw [hany, hplain]
  decide

theorem all_isWildcard_base_both (key value : Option ValueType) :
    (key.all (·.base.isWildcard) && value.all (·.base.isWildcard))
      = (key.all isWildcard && value.all isWildcard || hidesBoth key value) := by
  rw [hidesBoth, all_isWildcard_base, all_isWildcard_base]
  cases key.all isWildcard <;> cases value.all isWildcard <;>
    cases key.any (hides isWildcard) <;> cases value.any (hides isWildcard) <;> rfl

theorem stretched_map {key value : Option ValueType}
    (hkey : ∀ t ∈ key, Stretched t.disguised (t.write names) (t.unwrapped.write names))
    (hvalue : ∀ t ∈ value, Stretched t.disguised (t.write names) (t.unwrapped.write names)) :
    Stretched (map key value).disguised ((map key value).write names)
      ((map key value).unwrapped.write names) := by
  rw [unwrapped, write, write, table_eq, table_eq, isNone_writeArgument, isNone_writeArgument,
    isNone_writeArgument_unwrapped, isNone_writeArgument_unwrapped, all_isWildcard_base_both,
    disguised]
  refine ((stretched_writeArgument hkey).entries (stretched_writeArgument hvalue)).shortcut ?_ ?_
  · intro hvague
    rw [Bool.and_eq_true] at hvague
    rw [hidesBoth, any_hides_of_all hvague.1, any_hides_of_all hvague.2]
    exact Bool.and_false _
  · intro hvague
    rw [← all_isWildcard_base_both, Bool.and_eq_true] at hvague
    obtain ⟨hanyKey, hplainKey⟩ := getD_writeArgument_of_vague names hvague.1
    obtain ⟨hanyValue, hplainValue⟩ := getD_writeArgument_of_vague names hvague.2
    rw [hanyKey, hanyValue, hplainKey, hplainValue]
    decide

theorem writeAlternatives_cons_cons (t u : ValueType) (ts : List ValueType) :
    writeAlternatives names (t :: u :: ts)
      = t.write names ++ plain "|" ++ writeAlternatives names (u :: ts) := by
  simp only [writeAlternatives]

mutual

/-- **A type and the type without its wrappers have the same unknown
parts, and the same expression unless the type is disguised.** -/
theorem stretched_write :
    ∀ t : ValueType, Stretched t.disguised (t.write names) (t.unwrapped.write names)
  | .optional inner => by
    rw [disguised, write, unwrapped]
    exact stretched_write inner
  | .coerced inner => by
    rw [disguised, write, unwrapped]
    exact stretched_write inner
  | .array element => stretched_array (stretched_write element)
  | .map none none => stretched_map nofun nofun
  | .map none (some value) => stretched_map nofun fun | _, rfl => stretched_write value
  | .map (some key) none => stretched_map (fun | _, rfl => stretched_write key) nofun
  | .map (some key) (some value) =>
    stretched_map (fun | _, rfl => stretched_write key) fun | _, rfl => stretched_write value
  | .list none => stretched_list nofun
  | .list (some element) => stretched_list fun | _, rfl => stretched_write element
  | .union alternatives => by
    rw [disguised, write, unwrapped, write]
    exact stretched_writeAlternatives alternatives
  | .void => by simpa [disguised, unwrapped] using Stretched.refl _
  | .number _ _ => by simpa [disguised, unwrapped] using Stretched.refl _
  | .boolean _ => by simpa [disguised, unwrapped] using Stretched.refl _
  | .string _ => by simpa [disguised, unwrapped] using Stretched.refl _
  | .any => by simpa [disguised, unwrapped] using Stretched.refl _
  | .wildcard => by simpa [disguised, unwrapped] using Stretched.refl _
  | .multiResult => by simpa [disguised, unwrapped] using Stretched.refl _
  | .arguments => by simpa [disguised, unwrapped] using Stretched.refl _
  | .context => by simpa [disguised, unwrapped] using Stretched.refl _
  | .named _ => by simpa [disguised, unwrapped] using Stretched.refl _

theorem stretched_writeAlternatives : ∀ ts : List ValueType,
    Stretched (disguisedAny ts) (writeAlternatives names ts)
      (writeAlternatives names (unwrappedAll ts))
  | [] => by rw [disguisedAny, unwrappedAll]; exact .refl _
  | [t] => by
    rw [disguisedAny, disguisedAny, Bool.or_false, unwrappedAll, unwrappedAll, writeAlternatives,
      writeAlternatives]
    exact stretched_write t
  | t :: u :: ts => by
    have hrest := stretched_writeAlternatives (u :: ts)
    rw [unwrappedAll] at hrest
    rw [disguisedAny, unwrappedAll, unwrappedAll, writeAlternatives_cons_cons,
      writeAlternatives_cons_cons]
    simpa using ((stretched_write t).append (.refl (plain "|"))).append hrest

end

/-! ## Transparency -/

/-- **Where wrappers can be seen through, and where not.** Without its
wrappers a type has the same problems, and is known if it was. It has the
same expression unless it is disguised, is supplied by the runtime unless
a wrapper hid that, and may be anything unless a wrapper around it or
around the elements of an array hid that. -/
theorem transparent_iff (names : TypeNames) (t : ValueType) :
    (∀ subject, typeProblems subject (t.write names)
      = typeProblems subject (t.unwrapped.write names)) ∧
    t.isKnown = t.unwrapped.isKnown ∧
    ((t.write names).text = (t.unwrapped.write names).text ↔ t.disguised = false) ∧
    (t.isIrrelevant = t.unwrapped.isIrrelevant ↔ t.hides isIrrelevant = false) ∧
    (t.isAny = t.unwrapped.isAny ↔
      t.hides isAny = false ∧ t.base.hidesElements = false) := by
  have hstretched : Stretched t.disguised (t.write names) (t.unwrapped.write names) :=
    stretched_write t
  refine ⟨fun subject => ?_, (isKnown_unwrapped t).symm, hstretched.text_eq_iff, ?_, ?_⟩
  · rw [typeProblems, typeProblems, hstretched.unknown]
  · rw [looksOutside_isIrrelevant.unwrapped]
    cases t <;> simp [isIrrelevant, hides, isWrapper]
  · rw [isAny_unwrapped]
    cases hany : t.isAny with
    | true => simpa using hides_of_isAny hany
    | false =>
      rw [Bool.false_or]
      cases t.hides isAny <;> cases t.base.hidesElements <;> decide

/-- Declared types without names. -/
def unnamed : TypeNames := ⟨fun _ => none, fun _ => false⟩

/-- Optional elements hide that an array may hold anything. -/
theorem optional_elements_hide_any :
    (array (optional any)).unwrapped = array any ∧
    ((array (optional any)).write unnamed).text
      ≠ ((array (optional any)).unwrapped.write unnamed).text ∧
    (array (optional any)).isAny ≠ (array (optional any)).unwrapped.isAny := by
  obtain ⟨-, -, htext, -, hany⟩ := transparent_iff unnamed (array (optional any))
  refine ⟨rfl, fun h => ?_, fun h => ?_⟩
  · exact absurd (htext.mp h) (by decide)
  · exact absurd (hany.mp h).2 (by decide)

end ValueType

end ApiStubs
