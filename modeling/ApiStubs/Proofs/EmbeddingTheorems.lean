/-
ApiStubs.Proofs.EmbeddingTheorems — the same declarations under other
numbers.

A program may be part of another one in which its types and methods have
other numbers: the same declarations in another order, or with further
ones beside them. `TypeGraph.Embeds` and `Program.Embeds` say so. What is
asked of the smaller program then has the same answer in the larger one,
but for the numbers: walks visit the same types in the same order
(`TypeGraph.Embeds.visit`), heights are the same
(`TypeGraph.Embeds.height`), and methods inherit the same documentation
(`Program.Embeds.inheritedDoc`). Numbers are only ever compared, so that
it is enough that different numbers stay different.
-/
import ApiStubs.Proofs.HierarchyTheorems
import ApiStubs.Proofs.TableTheorems

namespace ApiStubs

/-! ## New numbers -/

/-- New numbers for types and methods. -/
structure Renaming where
  type : TypeId → TypeId
  method : MethodId → MethodId

/-- Everything keeps its number. -/
def Renaming.refl : Renaming := ⟨id, id⟩

def TypeNode.rename (r : Renaming) (node : TypeNode) : TypeNode :=
  { node with superclass := node.superclass.map r.type, interfaces := node.interfaces.map r.type }

def DeclaredType.rename (r : Renaming) (t : DeclaredType) : DeclaredType :=
  ⟨r.type t.id, t.decl⟩

def Method.rename (r : Renaming) (m : Method) : Method :=
  ⟨r.method m.id, r.type m.owner, m.decl⟩

@[simp] theorem DeclaredType.rename_refl (t : DeclaredType) : t.rename .refl = t := rfl

@[simp] theorem Method.rename_refl (m : Method) : m.rename .refl = m := rfl

@[simp] theorem TypeNode.rename_refl (node : TypeNode) : node.rename .refl = node := by
  simp [rename, Renaming.refl]

/-! ## Graphs -/

namespace TypeGraph

/-- If every edge leads to a node, then so does every walk. -/
theorem visit_lt {g : TypeGraph} (hclosed : ∀ id, ∀ parent ∈ g.supertypes id, parent < g.size)
    {seen queue : List TypeId} (hqueue : ∀ x ∈ queue, x < g.size) :
    ∀ x ∈ g.visit seen queue, x < g.size := by
  fun_induction TypeGraph.visit g seen queue with
  | case1 => exact List.forall_mem_nil _
  | case2 seen next queue hmem ih => exact ih (List.forall_mem_cons.mp hqueue).2
  | case3 seen next queue hmem ih =>
    obtain ⟨hnext, hqueue⟩ := List.forall_mem_cons.mp hqueue
    exact List.forall_mem_cons.mpr
      ⟨hnext, ih (List.forall_mem_append.mpr ⟨hqueue, hclosed next⟩)⟩

/-- The nodes of the first graph are nodes of the second, under other
numbers. A name that the first graph does not have is no name of these
nodes in the second either. -/
structure Embeds (r : Renaming) (g g' : TypeGraph) : Prop where
  closed : ∀ id, ∀ parent ∈ g.supertypes id, parent < g.size
  injective : ∀ a < g.size, ∀ b < g.size, r.type a = r.type b → a = b
  node : ∀ id node, g.nodes[id]? = some node → g'.nodes[r.type id]? = some (node.rename r)
  lookup : ∀ name id, g.lookup name = some id → g'.lookup name = some (r.type id)
  fresh : ∀ name other, g.lookup name = none → g'.lookup name = some other →
    ∀ id < g.size, r.type id ≠ other

namespace Embeds

variable {r : Renaming} {g g' : TypeGraph} {id a b : TypeId}

theorem exists_node (h : g.Embeds r g') (hid : id < g.size) :
    ∃ node, g.nodes[id]? = some node ∧ g'.nodes[r.type id]? = some (node.rename r) :=
  ⟨_, List.getElem?_eq_getElem hid, h.node id _ (List.getElem?_eq_getElem hid)⟩

theorem name (h : g.Embeds r g') (hid : id < g.size) : g'.name (r.type id) = g.name id := by
  obtain ⟨node, hnode, hnode'⟩ := h.exists_node hid
  simp [TypeGraph.name, hnode, hnode', TypeNode.rename]

theorem kind (h : g.Embeds r g') (hid : id < g.size) : g'.kind (r.type id) = g.kind id := by
  obtain ⟨node, hnode, hnode'⟩ := h.exists_node hid
  simp [TypeGraph.kind, hnode, hnode', TypeNode.rename]

theorem superclass (h : g.Embeds r g') (hid : id < g.size) :
    g'.superclass (r.type id) = (g.superclass id).map r.type := by
  obtain ⟨node, hnode, hnode'⟩ := h.exists_node hid
  simp [TypeGraph.superclass, hnode, hnode', TypeNode.rename]

theorem supertypes (h : g.Embeds r g') (hid : id < g.size) :
    g'.supertypes (r.type id) = (g.supertypes id).map r.type := by
  obtain ⟨node, hnode, hnode'⟩ := h.exists_node hid
  cases hsuper : node.superclass <;>
    simp [TypeGraph.supertypes, hnode, hnode', TypeNode.rename, hsuper]

/-- Different numbers stay different. -/
theorem mem_map (h : g.Embeds r g') (hid : id < g.size) {ids : List TypeId}
    (hids : ∀ x ∈ ids, x < g.size) : r.type id ∈ ids.map r.type ↔ id ∈ ids := by
  constructor
  · intro hmem
    obtain ⟨x, hx, heq⟩ := List.mem_map.mp hmem
    rwa [← h.injective x (hids x hx) id hid heq]
  · exact List.mem_map_of_mem

/-! ### Walks -/

/-- A walk visits the same types in the same order. -/
theorem visit (h : g.Embeds r g') {seen queue : List TypeId} (hseen : ∀ x ∈ seen, x < g.size)
    (hqueue : ∀ x ∈ queue, x < g.size) :
    g'.visit (seen.map r.type) (queue.map r.type) = (g.visit seen queue).map r.type := by
  fun_induction TypeGraph.visit g seen queue with
  | case1 => rw [List.map_nil, TypeGraph.visit]
  | case2 seen next queue hmem ih =>
    obtain ⟨hnext, hqueue⟩ := List.forall_mem_cons.mp hqueue
    rw [List.map_cons, TypeGraph.visit, if_pos ((h.mem_map hnext hseen).mpr hmem)]
    exact ih hseen hqueue
  | case3 seen next queue hmem ih =>
    obtain ⟨hnext, hqueue⟩ := List.forall_mem_cons.mp hqueue
    have hrest := ih (List.forall_mem_cons.mpr ⟨hnext, hseen⟩)
      (List.forall_mem_append.mpr ⟨hqueue, h.closed next⟩)
    rw [List.map_cons, TypeGraph.visit, if_neg ((h.mem_map hnext hseen).not.mpr hmem),
      h.supertypes hnext, ← List.map_append]
    exact congrArg (r.type next :: ·) hrest

theorem ancestors_lt (h : g.Embeds r g') : ∀ x ∈ g.ancestors id, x < g.size :=
  visit_lt h.closed (h.closed id)

theorem ancestors (h : g.Embeds r g') (hid : id < g.size) :
    g'.ancestors (r.type id) = (g.ancestors id).map r.type := by
  rw [TypeGraph.ancestors, h.supertypes hid, ← List.map_singleton]
  exact h.visit (List.forall_mem_singleton.mpr hid) (h.closed id)

theorem isSubtype (h : g.Embeds r g') (ha : a < g.size) (hb : b < g.size) :
    g'.isSubtype (r.type a) (r.type b) = g.isSubtype a b := by
  have hself : r.type a = r.type b ↔ a = b := ⟨h.injective a ha b hb, congrArg _⟩
  simp only [TypeGraph.isSubtype_eq, h.ancestors ha, h.mem_map hb h.ancestors_lt, hself]

/-- What the larger graph has beside the smaller one is above none of its
nodes. -/
theorem not_isSubtype (h : g.Embeds r g') (ha : a < g.size) {other : TypeId}
    (hother : ∀ id < g.size, r.type id ≠ other) : g'.isSubtype (r.type a) other = false := by
  have hmem : other ∉ (g.ancestors a).map r.type := by
    intro hmem
    obtain ⟨x, hx, heq⟩ := List.mem_map.mp hmem
    exact hother x (h.ancestors_lt x hx) heq
  simp [TypeGraph.isSubtype_eq, h.ancestors ha, hmem, hother a ha]

theorem isSubtypeOfName (h : g.Embeds r g') (ha : a < g.size) (name : String) :
    g'.isSubtypeOfName (r.type a) name = g.isSubtypeOfName a name := by
  unfold TypeGraph.isSubtypeOfName
  cases hname : g.lookup name with
  | some b => rw [h.lookup name b hname]; exact h.isSubtype ha (lookup_lt hname)
  | none =>
    cases hother : g'.lookup name with
    | none => rfl
    | some other => exact h.not_isSubtype ha (h.fresh name other hname hother)

/-! ### Heights -/

/-- By induction on the nodes that are not yet on the path. -/
theorem heightFrom (h : g.Embeds r g') {path : List TypeId} {id : TypeId}
    (hpath : ∀ x ∈ path, x < g.size) (hid : id < g.size) :
    g'.heightFrom (path.map r.type) (r.type id) = g.heightFrom path id := by
  by_cases hmem : id ∈ path
  · rw [heightFrom_of_mem hmem, heightFrom_of_mem ((h.mem_map hid hpath).mpr hmem)]
  · have hpath' : ∀ x ∈ id :: path, x < g.size := List.forall_mem_cons.mpr ⟨hid, hpath⟩
    rw [heightFrom_of_not_mem hmem, heightFrom_of_not_mem ((h.mem_map hid hpath).not.mpr hmem),
      h.supertypes hid, List.map_map]
    refine congrArg greatest (List.map_congr_left fun parent hp => ?_)
    have hfewer : g.unseen (id :: path) < g.unseen path := unseen_cons_lt hid hmem
    exact congrArg (· + 1) (h.heightFrom hpath' (h.closed id parent hp))
termination_by g.unseen path

/-- Heights are the same. -/
theorem height (h : g.Embeds r g') (hid : id < g.size) :
    g'.height (r.type id) = g.height id := by
  have hpath : ∀ x ∈ ([] : List TypeId), x < g.size := nofun
  rw [height_eq_heightFrom, height_eq_heightFrom]
  exact h.heightFrom hpath hid

end Embeds

end TypeGraph

/-! ## Programs -/

namespace Program

/-- The declarations of the first program are declarations of the second,
under other numbers. -/
structure Embeds (r : Renaming) (p p' : Program) : Prop where
  graph : p.graph.Embeds r p'.graph
  type_lt : ∀ t ∈ p.types, t.id < p.graph.size
  owner_lt : ∀ m ∈ p.methods, m.owner < p.graph.size
  type? : ∀ id < p.graph.size, p'.type? (r.type id) = p.type? id
  methodsOf : ∀ id < p.graph.size, p'.methodsOf (r.type id) = (p.methodsOf id).map (·.rename r)
  injective : ∀ m ∈ p.methods, ∀ other ∈ p.methods,
    r.method m.id = r.method other.id → m.id = other.id

namespace Embeds

variable {r : Renaming} {p p' : Program} {m : Method}

theorem methodSubject (h : p.Embeds r p') (hm : m ∈ p.methods) :
    p'.methodSubject (m.rename r) = p.methodSubject m := by
  simp only [Program.methodSubject, Method.rename, h.graph.name (h.owner_lt m hm)]

theorem overridden (h : p.Embeds r p') (hm : m ∈ p.methods) :
    p'.overridden (m.rename r) = (p.overridden m).map (·.rename r) := by
  have hmethods : ((p.graph.ancestors m.owner).map r.type).flatMap p'.methodsOf
      = ((p.graph.ancestors m.owner).flatMap p.methodsOf).map (·.rename r) := by
    rw [List.flatMap_map, List.map_flatMap]
    refine List.flatMap_congr fun t ht => ?_
    exact h.methodsOf t (h.graph.ancestors_lt t ht)
  show ((p'.graph.ancestors (r.type m.owner)).flatMap p'.methodsOf).filter _ = _
  rw [h.graph.ancestors (h.owner_lt m hm), hmethods, List.filter_map]
  rfl

/-- A method inherits the same documentation from the same method. -/
theorem inheritedDoc (h : p.Embeds r p') (hm : m ∈ p.methods) :
    p'.inheritedDoc (m.rename r)
      = (p.inheritedDoc m).map fun found => (found.1.rename r, found.2) := by
  rw [Program.inheritedDoc, h.overridden hm, Program.inheritedDoc, List.findSome?_map,
    List.map_findSome?]
  refine congrArg (List.findSome? · _) (funext fun other => ?_)
  show (documented? (other.rename r)).map _ = ((documented? other).map _).map _
  rw [Option.map_map]
  rfl

theorem mem_chain (h : p.Embeds r p') (hm : m ∈ p.methods) {chain : List MethodId}
    (hchain : ∀ id ∈ chain, ∃ other ∈ p.methods, other.id = id) :
    r.method m.id ∈ chain.map r.method ↔ m.id ∈ chain := by
  constructor
  · intro hmem
    obtain ⟨id, hid, heq⟩ := List.mem_map.mp hmem
    obtain ⟨other, hother, rfl⟩ := hchain id hid
    rwa [← h.injective other hother m hm heq]
  · exact List.mem_map_of_mem

end Embeds

end Program

end ApiStubs
