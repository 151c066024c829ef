/-
ApiStubs.Proofs.UsableNameTheorems — which classes are left without a
name.

Extraction passes over a type whose module text is empty. It looks at the
whole text only: an auxiliary type takes its text apart afterwards, and
each cut can leave nothing. A kind in brackets may be followed by no name,
and a name may begin or end with its first point. Such a class is
extracted all the same, and its stub has a file without a name, a module
tag without a name or a table without a name. `names_missing_iff` says
for which texts that happens, and that it happens for no others.
-/
import ApiStubs.Proofs.ExtractionTheorems
import ApiStubs.Proofs.PlacementTheorems

namespace ApiStubs

/-! ## What the cuts leave -/

theorem TypeDecl.ModuleText.trimmed {decl : TypeDecl} {text : String}
    (h : decl.ModuleText text) : Text.Trimmed text := by
  obtain ⟨_, doc, _, before, content, after, _, _, rfl⟩ := h
  exact Text.trimmed_trim _

namespace ClassInfo

section Cuts

variable {text name module rest : String} {kind : Option String}

/-- A text is read in one way. -/
theorem Reads.unique {kind' : Option String} {name' : String} (h : Reads text kind name)
    (h' : Reads text kind' name') : kind = kind' ∧ name = name' := by
  have hsplit := (splitKind?_eq_some_iff.mpr h).symm.trans (splitKind?_eq_some_iff.mpr h')
  exact Prod.mk.inj (Option.some.inj hsplit)

/-- A name is split in one way. -/
theorem Splits.unique {module' rest' : String} (h : Splits name module rest)
    (h' : Splits name module' rest') : module = module' ∧ rest = rest' :=
  Prod.mk.inj ((splitName_eq_iff.mpr h).symm.trans (splitName_eq_iff.mpr h'))

theorem Reads.trimmed (h : Reads text kind name) (htext : Text.Trimmed text) :
    Text.Trimmed name := by
  cases h with
  | bare => exact htext
  | bracketed => exact Text.trimmed_trim _

/-- Nothing is left of a text that is a kind and no more. -/
theorem Reads.name_eq_empty_iff (h : Reads text kind name) (htext : Text.Trimmed text)
    (hne : text ≠ "") :
    name = "" ↔ ∃ inside, ']' ∉ inside.toList ∧ text = "[kind=" ++ inside ++ "]" := by
  constructor
  · intro hempty
    cases h with
    | bare => exact absurd hempty hne
    | @bracketed inside rest closing =>
      -- The text ends where its last part does, so that part is no blank.
      have hrest : rest = "" := by
        rw [← String.append_assoc] at htext
        exact htext.eq_empty_of_blank (Text.trim_eq_empty_iff.mp hempty)
      subst hrest
      exact ⟨inside, closing, by simp [String.append_assoc]⟩
  · rintro ⟨inside, closing, rfl⟩
    have hreads : Reads ("[kind=" ++ (inside ++ "]" ++ "")) (some (Text.trim inside))
        (Text.trim "") := .bracketed closing
    rw [String.append_empty, ← String.append_assoc] at hreads
    exact (h.unique hreads).2

/-- The module has no name if the name begins with a point. -/
theorem Splits.module_eq_empty_iff (h : Splits name module rest) :
    module = "" ↔ name = "" ∨ ∃ after, name = "." ++ after := by
  constructor
  · rintro rfl
    cases h with
    | whole => exact .inl rfl
    | parts => exact .inr ⟨rest, by simp⟩
  · rintro (rfl | ⟨after, rfl⟩)
    · exact (h.unique (.whole (by simp))).1
    · have hparts : Splits ("" ++ "." ++ after) "" after := .parts (by simp)
      rw [String.empty_append] at hparts
      exact (h.unique hparts).1

/-- The local name is empty if the name ends with its first point. -/
theorem Splits.rest_eq_empty_iff (h : Splits name module rest) :
    rest = "" ↔ name = "" ∨ ∃ before, '.' ∉ before.toList ∧ name = before ++ "." := by
  constructor
  · rintro rfl
    cases h with
    | whole => exact .inl rfl
    | parts point => exact .inr ⟨module, point, by simp⟩
  · rintro (rfl | ⟨before, point, rfl⟩)
    · exact (h.unique (.whole (by simp))).2
    · have hparts : Splits (before ++ "." ++ "") before "" := .parts point
      rw [String.append_empty] at hparts
      exact (h.unique hparts).2

/-- The local name ends as the name does. -/
theorem Splits.last_rest (h : Splits name module rest) (hname : Text.Trimmed name) :
    ∀ c ∈ Text.last? rest, Text.isBlank c = false := by
  intro c hc
  apply hname.last
  cases h with
  | whole => exact hc
  | parts =>
    rw [Text.last?_append, Option.mem_def.mp hc]
    rfl

end Cuts

/-! ## Classes without a name -/

section Classes

variable {c : ClassInfo} {text : String}

theorem NamedBy.name_eq_empty_iff (h : c.NamedBy text) (htext : c.decl.ModuleText text) :
    c.name = "" ↔ c.classification = .auxiliary ∧
      ∃ inside, ']' ∉ inside.toList ∧ text = "[kind=" ++ inside ++ "]" := by
  cases h with
  | module isModule _ name => simp [isModule, name, htext.1]
  | auxiliary isAuxiliary reads =>
    rw [reads.name_eq_empty_iff htext.trimmed htext.1]
    simp [isAuxiliary]

theorem NamedBy.moduleName_eq_empty_iff (h : c.NamedBy text) (htext : c.decl.ModuleText text) :
    c.moduleName = "" ↔ c.classification = .auxiliary ∧
      (c.name = "" ∨ ∃ after, c.name = "." ++ after) := by
  cases h with
  | module isModule _ _ moduleName => simp [isModule, moduleName, htext.1]
  | auxiliary isAuxiliary _ rest splits =>
    rw [splits.module_eq_empty_iff]
    simp [isAuxiliary]

theorem NamedBy.typeName_eq_empty_iff (h : c.NamedBy text) :
    c.typeName = some "" ↔ c.classification = .auxiliary ∧
      (c.name = "" ∨ ∃ before, '.' ∉ before.toList ∧ c.name = before ++ ".") := by
  cases h with
  | module isModule _ _ _ typeName => simp [isModule, typeName]
  | auxiliary isAuxiliary _ rest splits typeName =>
    rw [typeName, Option.some.injEq, splits.rest_eq_empty_iff]
    simp [isAuxiliary]

/-- A local name does not end with a blank. -/
theorem NamedBy.last_typeName (h : c.NamedBy text) (htext : c.decl.ModuleText text)
    {name : String} (hname : c.typeName = some name) :
    ∀ ch ∈ Text.last? name, Text.isBlank ch = false := by
  cases h with
  | module _ _ _ _ typeName => cases typeName.symm.trans hname
  | auxiliary _ reads rest splits typeName =>
    obtain rfl := Option.some.inj (typeName.symm.trans hname)
    exact splits.last_rest (reads.trimmed htext.trimmed)

end Classes

end ClassInfo

/-! ## Stubs without a name -/

namespace StubDocument

variable {c : ClassInfo}

/-- A module tag without a name. -/
def namelessTag : Option String → String
  | some kind => "@module[kind=" ++ kind ++ "] "
  | none => "@module "

theorem fileName_eq_iff {project : Project} {groups : List FunctionGroup} :
    (of project groups c).fileName = ".lua" ↔ c.name = "" := by
  show c.name ++ ".lua" = ".lua" ↔ _
  simp

theorem moduleTag_eq (c : ClassInfo) : moduleTag c = namelessTag c.kind ++ c.moduleName := by
  unfold moduleTag namelessTag
  cases c.kind <;> rfl

theorem moduleTag_eq_nameless_iff : moduleTag c = namelessTag c.kind ↔ c.moduleName = "" := by
  rw [moduleTag_eq]
  simp

theorem qualifier_eq_point_iff : qualifier c = "." ↔ c.typeName = some "" := by
  unfold qualifier
  cases c.typeName <;> simp

theorem headerOf_of_typeName (project : Project) {name : String} (h : c.typeName = some name) :
    ∃ front, headerOf project c = front ++ "local " ++ name ++ " = \x7b\x7d\n" := by
  unfold headerOf
  rw [h]
  exact ⟨_, rfl⟩

theorem headerOf_of_module (project : Project) (h : c.typeName = none) :
    ∃ front, headerOf project c = front ++ "\n]]\n" := by
  unfold headerOf
  rw [h]
  exact ⟨_, rfl⟩

/-- The header opens a table without a name if the local name is empty;
any other local name shows, because it does not end with a blank. -/
theorem headerOf_ends_iff {project : Project}
    (hlast : ∀ name, c.typeName = some name →
      ∀ ch ∈ Text.last? name, Text.isBlank ch = false) :
    (∃ front, headerOf project c = front ++ "local  = \x7b\x7d\n") ↔ c.typeName = some "" := by
  have htable : "local  = \x7b\x7d\n" = "local " ++ " = \x7b\x7d\n" := rfl
  constructor
  · rintro ⟨front, hfront⟩
    cases htype : c.typeName with
    | none =>
      -- The header of a module ends with brackets and not with braces.
      obtain ⟨other, hother⟩ := headerOf_of_module project htype
      rw [hother] at hfront
      have hends := congrArg (fun s => s.toList.reverse.take 2) hfront
      simp at hends
    | some name =>
      obtain ⟨other, hother⟩ := headerOf_of_typeName project htype
      rw [hother, htable, ← String.append_assoc, String.append_left_inj] at hfront
      refine congrArg some (Text.last?_eq_none_iff.mp ?_)
      rw [Option.eq_none_iff_forall_ne_some]
      intro ch hch
      have hspace : Text.last? (front ++ "local ") = some ' ' := by
        rw [Text.last?_append]
        rfl
      rw [← hfront, Text.last?_append, hch] at hspace
      obtain rfl : ch = ' ' := Option.some.inj hspace
      cases hlast name htype ' ' hch
  · intro htype
    obtain ⟨front, hfront⟩ := headerOf_of_typeName project htype
    exact ⟨front, by rw [hfront, htable, String.append_empty, String.append_assoc]⟩

end StubDocument

/-- **Names are missing exactly where the cuts leave nothing.** A module has
all its names. An auxiliary type has no name if its module text is a kind
and no more, no module if its name begins with a point, and no local name
if its name ends with its first point; the second and the third also if it
has no name. Then, and only then, its stub is a file without a name, or
has a module tag without a name, or a table and functions without one. -/
theorem names_missing_iff {p : Program} {caps : Capabilities} {c : ClassInfo}
    (hc : c ∈ (Surface.of p caps).classes) :
    ∃ text, c.decl.ModuleText text ∧
      (c.name = "" ↔ c.classification = .auxiliary ∧
        ∃ inside, ']' ∉ inside.toList ∧ text = "[kind=" ++ inside ++ "]") ∧
      (c.moduleName = "" ↔ c.classification = .auxiliary ∧
        (c.name = "" ∨ ∃ after, c.name = "." ++ after)) ∧
      (c.typeName = some "" ↔ c.classification = .auxiliary ∧
        (c.name = "" ∨ ∃ before, '.' ∉ before.toList ∧ c.name = before ++ ".")) ∧
      ∀ project groups,
        let stub := StubDocument.of project groups c
        (stub.fileName = ".lua" ↔ c.name = "") ∧
        (StubDocument.moduleTag c = StubDocument.namelessTag c.kind ↔ c.moduleName = "") ∧
        ((∃ front, stub.header = front ++ "local  = \x7b\x7d\n") ↔ c.typeName = some "") ∧
        (StubDocument.qualifier c = "." ↔ c.typeName = some "") := by
  obtain ⟨t, _, hclass⟩ := Surface.mem_classes.mp hc
  have presents := Surface.presents_of_classOf? hclass
  obtain ⟨text, htext, hnamed⟩ := presents.named
  rw [← presents.decl] at htext
  refine ⟨text, htext, hnamed.name_eq_empty_iff htext, hnamed.moduleName_eq_empty_iff htext,
    hnamed.typeName_eq_empty_iff, fun project groups => ⟨StubDocument.fileName_eq_iff,
      StubDocument.moduleTag_eq_nameless_iff, ?_, StubDocument.qualifier_eq_point_iff⟩⟩
  exact StubDocument.headerOf_ends_iff fun name hname => hnamed.last_typeName htext hname

/-! ## A kind without a name -/

namespace Nameless

def bar : TypeDecl :=
  { id := "a.Bar", name := "Bar", source := ⟨"src/A.java", 1, 0⟩,
    doc := some { tags := [.blockTag "cc.module" [.text "[kind=x]"]] } }

def sample : Sample where
  models := [{ types := [bar] }]

def barClass : ClassInfo :=
  { id := 0, decl := bar, name := "", classification := .auxiliary, kind := some "x",
    moduleName := "", typeName := some "", hidden := false }

theorem barClass_mem : barClass ∈ (Surface.of sample.program {}).classes :=
  Surface.mem_classes.mpr ⟨⟨0, bar⟩, List.mem_singleton.mpr rfl, rfl⟩

/-- `Bar` is documented, and whatever is made of it has no name. -/
theorem bar_has_no_name :
    Program.build sample.models = .ok sample.program ∧
      barClass ∈ (Surface.of sample.program {}).classes ∧
      ∀ project groups,
        (StubDocument.of project groups barClass).fileName = ".lua" ∧
        StubDocument.moduleTag barClass = "@module[kind=x] " ∧
        (∃ front, (StubDocument.of project groups barClass).header
          = front ++ "local  = \x7b\x7d\n") ∧
        StubDocument.qualifier barClass = "." := by
  obtain ⟨text, htext, hname, hmodule, htype, hstub⟩ := names_missing_iff barClass_mem
  obtain rfl : "[kind=x]" = text :=
    (ClassInfo.moduleText?_eq_some_iff.mp rfl : bar.ModuleText "[kind=x]").unique htext
  have hnone : barClass.name = "" := hname.mpr ⟨rfl, "x", by decide, rfl⟩
  refine ⟨sample.build_models, barClass_mem, fun project groups => ?_⟩
  obtain ⟨hfile, htag, hheader, hqualifier⟩ := hstub project groups
  exact ⟨hfile.mpr hnone, htag.mpr (hmodule.mpr ⟨rfl, .inl hnone⟩),
    hheader.mpr (htype.mpr ⟨rfl, .inl hnone⟩), hqualifier.mpr (htype.mpr ⟨rfl, .inl hnone⟩)⟩

end Nameless

end ApiStubs
