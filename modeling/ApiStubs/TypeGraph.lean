/-
ApiStubs.TypeGraph — the host's type hierarchy.

Every type name that occurs, declared or only named as a supertype, is a
node; nodes are numbered in the order in which their names first occur.
A node has an edge to its superclass and to each of its interfaces.
Nothing forbids cycles, so walks keep the nodes they have seen. There are
two of them, and both go breadth first: `ancestors` marks a node when it
takes it from its queue, and `isSubtype` marks the supertypes that it puts
into its queue, and stops as soon as it meets the one it looks for. They
end because the nodes of the graph that are not yet seen get fewer.
-/
import ApiStubs.Count
import ApiStubs.Model.Declaration

namespace ApiStubs

/-- The number of a type in its graph. -/
abbrev TypeId := Nat

/-- What the graph knows about one type. -/
structure TypeNode where
  name : String
  /-- `none` for a type that is only known by name. -/
  kind : Option TypeKind := none
  superclass : Option TypeId := none
  interfaces : List TypeId := []
  deriving DecidableEq, Repr

/-- A type hierarchy; the number of a node is its place in the list. -/
structure TypeGraph where
  nodes : List TypeNode := []
  deriving DecidableEq, Repr

namespace TypeGraph

/-! ## Nodes -/

/-- How many types the graph knows. -/
def size (g : TypeGraph) : Nat :=
  g.nodes.length

/-- The number of the type with this name. -/
def lookup (g : TypeGraph) (name : String) : Option TypeId :=
  g.nodes.findIdx? (·.name = name)

/-- The number of the type with this name, which is added if it is new. -/
def intern (g : TypeGraph) (name : String) : TypeGraph × TypeId :=
  match g.lookup name with
  | some id => (g, id)
  | none => (⟨g.nodes ++ [{ name }]⟩, g.size)

/-- Numbers for several names, one after the other. -/
def internAll (g : TypeGraph) : List String → TypeGraph × List TypeId
  | [] => (g, [])
  | name :: names =>
    let (g, id) := g.intern name
    let (g, ids) := g.internAll names
    (g, id :: ids)

/-- Records what was declared about a type. -/
def declare (g : TypeGraph) (id : TypeId) (kind : TypeKind) (superclass : Option TypeId)
    (interfaces : List TypeId) : TypeGraph :=
  ⟨g.nodes.modify id fun node => { node with kind := some kind, superclass, interfaces }⟩

/-- The name of a type; empty for a number that the graph does not have. -/
def name (g : TypeGraph) (id : TypeId) : String :=
  match g.nodes[id]? with
  | some node => node.name
  | none => ""

/-- The declared kind of a type. -/
def kind (g : TypeGraph) (id : TypeId) : Option TypeKind :=
  g.nodes[id]?.bind (·.kind)

/-- The declared superclass of a type. -/
def superclass (g : TypeGraph) (id : TypeId) : Option TypeId :=
  g.nodes[id]?.bind (·.superclass)

/-- The direct supertypes: the superclass, then the interfaces in order. -/
def supertypes (g : TypeGraph) (id : TypeId) : List TypeId :=
  match g.nodes[id]? with
  | some node => node.superclass.toList ++ node.interfaces
  | none => []

theorem lt_size_of_mem_supertypes {g : TypeGraph} {id parent : TypeId}
    (h : parent ∈ g.supertypes id) : id < g.size := by
  unfold supertypes at h
  split at h
  · next node hn => exact (List.getElem?_eq_some_iff.1 hn).1
  · simp at h

theorem mem_supertypes_of_superclass {g : TypeGraph} {id parent : TypeId}
    (h : g.superclass id = some parent) : parent ∈ g.supertypes id := by
  obtain ⟨node, hn, hs⟩ := Option.bind_eq_some_iff.1 h
  simp [supertypes, hn, hs]

/-! ## The nodes not yet seen -/

/-- How many nodes of the graph are not in `seen`. -/
def unseen (g : TypeGraph) (seen : List TypeId) : Nat :=
  Count.left id seen (List.range g.size)

theorem unseen_cons_le (g : TypeGraph) (seen : List TypeId) (id : TypeId) :
    g.unseen (id :: seen) ≤ g.unseen seen :=
  Count.left_cons_le _ seen id _

/-- Seeing one more node of the graph leaves fewer to see. -/
theorem unseen_cons_lt {g : TypeGraph} {seen : List TypeId} {id : TypeId}
    (hid : id < g.size) (hseen : id ∉ seen) : g.unseen (id :: seen) < g.unseen seen :=
  Count.left_cons_lt (List.mem_range.2 hid) hseen

/-! ## Walks -/

/-- The nodes in `queue`, and those reached from them, that are not in
`seen`: breadth first, each once. -/
def visit (g : TypeGraph) (seen : List TypeId) : List TypeId → List TypeId
  | [] => []
  | id :: queue =>
    if id ∈ seen then g.visit seen queue
    else id :: g.visit (id :: seen) (queue ++ g.supertypes id)
termination_by queue => (g.unseen seen, queue.length)
decreasing_by
  · exact Prod.Lex.right _ (by simp)
  · next hseen =>
    by_cases hid : id < g.size
    · exact Prod.Lex.left _ _ (unseen_cons_lt hid hseen)
    · have hsup : g.supertypes id = [] := by
        simp [supertypes, List.getElem?_eq_none (Nat.le_of_not_lt hid)]
      rw [hsup, List.append_nil]
      rcases Nat.lt_or_eq_of_le (unseen_cons_le g seen id) with h | h
      · exact Prod.Lex.left _ _ h
      · rw [h]; exact Prod.Lex.right _ (by simp)

/-- The proper supertypes of a type, the nearest first. -/
def ancestors (g : TypeGraph) (id : TypeId) : List TypeId :=
  g.visit [id] (g.supertypes id)

/-- All that is a supertype of some node. -/
def targets (g : TypeGraph) : List TypeId :=
  (List.range g.size).flatMap g.supertypes

theorem mem_targets {g : TypeGraph} {id parent : TypeId} (h : parent ∈ g.supertypes id) :
    parent ∈ g.targets :=
  List.mem_flatMap.2 ⟨id, List.mem_range.2 (lt_size_of_mem_supertypes h), h⟩

/-- The direct supertypes of a node that are not in `seen`, each once. -/
def freshSupertypes (g : TypeGraph) (seen : List TypeId) (id : TypeId) : List TypeId :=
  ((g.supertypes id).filter (· ∉ seen)).eraseDups

theorem mem_freshSupertypes {g : TypeGraph} {seen : List TypeId} {id parent : TypeId} :
    parent ∈ g.freshSupertypes seen id ↔ parent ∈ g.supertypes id ∧ parent ∉ seen := by
  simp [freshSupertypes]

/-- Do the nodes in `queue` lead up to `sup`? What is put into the queue is
marked at once, so that no node is put there twice. -/
def search (g : TypeGraph) (sup : TypeId) (seen : List TypeId) : List TypeId → Bool
  | [] => false
  | id :: queue =>
    if sup ∈ g.supertypes id then true
    else
      g.search sup (g.freshSupertypes seen id ++ seen) (queue ++ g.freshSupertypes seen id)
termination_by queue => (Count.left (·) seen g.targets, queue.length)
decreasing_by
  match hfresh : g.freshSupertypes seen id with
  | [] => simpa using Prod.Lex.right _ (Nat.lt_succ_self _)
  | parent :: fresh =>
    have hparent := mem_freshSupertypes.1 (hfresh ▸ List.mem_cons_self)
    refine Prod.Lex.left _ _ (Nat.lt_of_le_of_lt ?_
      (Count.left_cons_lt (mem_targets hparent.1) hparent.2))
    exact Count.left_le_of_subset _ (by simp) _

/-- Is `sub` the type `sup` itself, or below it? -/
def isSubtype (g : TypeGraph) (sub sup : TypeId) : Bool :=
  sub = sup || g.search sup [] [sub]

/-- Is `sub` the type of this name, or below it? A name that does not
occur has no subtypes. -/
def isSubtypeOfName (g : TypeGraph) (sub : TypeId) (sup : String) : Bool :=
  match g.lookup sup with
  | some sup => g.isSubtype sub sup
  | none => false

end TypeGraph

end ApiStubs
