/-
ApiStubs.Program — all declarations of a run in one place.

Models are taken in one declaration at a time: the type's name and its
supertypes' names are numbered in the graph, its methods are numbered
after all earlier ones. Declaring a type a second time is an error.
-/
import ApiStubs.Diagnostic
import ApiStubs.Error
import ApiStubs.TypeGraph

namespace ApiStubs

/-- The number of a method in its program. -/
abbrev MethodId := Nat

/-- A declared type and its number. -/
structure DeclaredType where
  id : TypeId
  decl : TypeDecl
  deriving Repr

/-- A declared method, its number and the type that declares it. -/
structure Method where
  id : MethodId
  owner : TypeId
  decl : MethodDecl
  deriving Repr

/-- The declarations of a run. -/
structure Program where
  graph : TypeGraph := {}
  /-- Declared types in the order of their declarations. -/
  types : List DeclaredType := []
  /-- All methods; the number of a method is its place in the list. -/
  methods : List Method := []
  deriving Repr

namespace Program

/-! ## Tables -/

/-- The declaration of a type, if it is declared and not only named. -/
def type? (p : Program) (id : TypeId) : Option TypeDecl :=
  (p.types.find? (·.id = id)).map (·.decl)

/-- The unqualified name of a type; empty if the type is only named. -/
def simpleName (p : Program) (id : TypeId) : String :=
  match p.type? id with
  | some decl => decl.name
  | none => ""

/-- The methods that a type declares, in order. -/
def methodsOf (p : Program) (id : TypeId) : List Method :=
  p.methods.filter (·.owner = id)

theorem mem_methodsOf {p : Program} {id : TypeId} {m : Method} :
    m ∈ p.methodsOf id ↔ m ∈ p.methods ∧ m.owner = id := by
  simp [methodsOf]

/-- The methods of a type numbered from `next` on. -/
def number (owner : TypeId) (next : MethodId) : List MethodDecl → List Method
  | [] => []
  | decl :: decls => ⟨next, owner, decl⟩ :: number owner (next + 1) decls

/-- Takes in one type declaration. -/
def declare (p : Program) (decl : TypeDecl) : Except Error Program :=
  let (graph, id) := p.graph.intern decl.id
  if (p.type? id).isSome then .error (.duplicateType decl.id)
  else
    let (graph, superclass) :=
      match decl.superclass with
      | some name =>
        let (graph, id) := graph.intern name
        (graph, some id)
      | none => (graph, none)
    let (graph, interfaces) := graph.internAll decl.interfaces
    .ok { graph := graph.declare id decl.kind superclass interfaces
          types := p.types ++ [⟨id, decl⟩]
          methods := p.methods ++ number id p.methods.length decl.methods }

/-- The program that some models declare. -/
def build (models : List Model) : Except Error Program :=
  (models.flatMap (·.types)).foldlM declare {}

/-! ## Subjects of diagnostics -/

/-- A type declaration as the subject of a diagnostic. -/
def typeSubject (decl : TypeDecl) : Subject :=
  ⟨decl.id, decl.source⟩

/-- A method as the subject of a diagnostic. -/
def methodSubject (p : Program) (m : Method) : Subject :=
  ⟨p.graph.name m.owner ++ "#" ++ m.decl.name, m.decl.source⟩

/-! ## Inherited documentation -/

/-- The comment of a method, unless it is empty. -/
def documented? (m : Method) : Option DocComment :=
  m.decl.doc.filter (!·.isEmpty)

/-- The methods of proper supertypes that a method overrides, the nearest
types first. -/
def overridden (p : Program) (m : Method) : List Method :=
  ((p.graph.ancestors m.owner).flatMap p.methodsOf).filter fun other =>
    m.decl.overrides other.decl

/-- The method that `m` inherits its documentation from, and that
documentation: the nearest overridden one with a comment. -/
def inheritedDoc (p : Program) (m : Method) : Option (Method × DocComment) :=
  (p.overridden m).findSome? fun other => (documented? other).map (other, ·)

theorem mem_methods_of_inheritedDoc {p : Program} {m other : Method} {doc : DocComment}
    (h : p.inheritedDoc m = some (other, doc)) : other ∈ p.methods := by
  obtain ⟨candidate, hmem, hdoc⟩ := List.exists_of_findSome?_eq_some h
  obtain ⟨_, _, heq⟩ := Option.map_eq_some_iff.1 hdoc
  obtain rfl : candidate = other := (Prod.mk.inj heq).1
  simp only [overridden, List.mem_filter, List.mem_flatMap, mem_methodsOf] at hmem
  obtain ⟨⟨_, _, hm, _⟩, _⟩ := hmem
  exact hm

end Program

end ApiStubs
