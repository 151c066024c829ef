/-
ApiStubs.Proofs.TableTheorems — what the tables of a program hold.

Declaring is interleaved with numbering: a declaration gets a number for
its own name and for the names of its supertypes, any of which may have
been numbered before, declared or not. `Describes` says what the tables
hold once some declarations are taken in, without mentioning how:
the names are numbered one to one, a declared type has the node that its
declaration describes (`TypeGraph.nodeOf`), every other node is bare, and
the methods are those of the declarations, one after the other.

`Describes.declare` keeps this over one more declaration, and
`describes_build` has it of a whole run. A run stops at the first
declaration of a name that is declared already and at nothing else
(`build_eq_error_iff`).
-/
import Mathlib.Data.List.Nodup
import Mathlib.Data.List.Induction
import ApiStubs.Proofs.ProgramTheorems

namespace ApiStubs

/-! ## Names and numbers -/

/-- The node of a type that is only named. -/
def TypeNode.bare (name : String) : TypeNode := { name }

/-- The names that a declaration gives numbers to: its own and those of its
supertypes. -/
def TypeDecl.named (decl : TypeDecl) : List String :=
  decl.id :: (decl.superclass.toList ++ decl.interfaces)

namespace TypeGraph

variable {g g' : TypeGraph} {name : String} {id : TypeId}

/-- The names of all nodes, by their numbers. -/
def names (g : TypeGraph) : List String :=
  g.nodes.map (·.name)

theorem lookup_eq (g : TypeGraph) (name : String) :
    g.lookup name = g.names.findIdx? (· = name) := by
  rw [names, List.findIdx?_map]
  rfl

theorem lookup_eq_none_iff : g.lookup name = none ↔ name ∉ g.names := by
  rw [lookup_eq, List.findIdx?_eq_none_iff]
  constructor
  · intro h hmem
    simpa using h name hmem
  · intro h x hx
    exact decide_eq_false fun heq => h (heq ▸ hx)

theorem getElem?_of_lookup (h : g.lookup name = some id) : g.names[id]? = some name := by
  rw [lookup_eq] at h
  obtain ⟨hlt, hname, _⟩ := List.findIdx?_eq_some_iff_getElem.mp h
  rw [List.getElem?_eq_getElem hlt, of_decide_eq_true hname]

/-- Where no name occurs twice, looking up is the inverse of naming. -/
theorem lookup_eq_some_iff (hnodup : g.names.Nodup) :
    g.lookup name = some id ↔ g.names[id]? = some name := by
  refine ⟨getElem?_of_lookup, fun h => ?_⟩
  cases hfound : g.lookup name with
  | none => exact absurd (List.mem_of_getElem? h) (lookup_eq_none_iff.mp hfound)
  | some other =>
    have hother := getElem?_of_lookup hfound
    have hlt : other < g.names.length := (List.getElem?_eq_some_iff.mp hother).1
    rw [(List.getElem?_inj hlt hnodup).mp (hother.trans h.symm)]

theorem getElem?_names (hid : id < g.size) : g.names[id]? = some (g.name id) := by
  simp [names, name, List.getElem?_eq_getElem (show id < g.nodes.length from hid)]

theorem name_of_lookup (h : g.lookup name = some id) : g.name id = name := by
  have hback := getElem?_names (lookup_lt h)
  rw [getElem?_of_lookup h] at hback
  exact (Option.some.inj hback).symm

/-- The node of a declaration, given the numbers of its supertypes. -/
def nodeOf (g : TypeGraph) (decl : TypeDecl) : TypeNode where
  name := decl.id
  kind := some decl.kind
  superclass := decl.superclass.bind g.lookup
  interfaces := decl.interfaces.filterMap g.lookup

/-! ## Numbering -/

/-- The second graph is the first one with bare nodes added, so that it
has all of `names`. -/
structure Grows (g g' : TypeGraph) (names : List String) : Prop where
  nodup : g'.names.Nodup
  mem_names : ∀ name, name ∈ g'.names ↔ name ∈ g.names ∨ name ∈ names
  nodes : ∃ new : List String, g'.nodes = g.nodes ++ new.map TypeNode.bare

namespace Grows

variable {names more : List String}

theorem refl (hnodup : g.names.Nodup) : Grows g g [] :=
  ⟨hnodup, by simp, [], by simp⟩

theorem trans {g'' : TypeGraph} (h : Grows g g' names) (h' : Grows g' g'' more) :
    Grows g g'' (names ++ more) := by
  obtain ⟨new, hnew⟩ := h.nodes
  obtain ⟨new', hnew'⟩ := h'.nodes
  refine ⟨h'.nodup, fun name => ?_, new ++ new', by simp [hnew, hnew']⟩
  rw [h'.mem_names, h.mem_names, List.mem_append, or_assoc]

theorem lookup (h : Grows g g' names) (hname : g.lookup name = some id) :
    g'.lookup name = some id := by
  obtain ⟨new, hnew⟩ := h.nodes
  have hid := getElem?_of_lookup hname
  have hnames : g'.names = g.names ++ new := by
    simp [TypeGraph.names, hnew, Function.comp_def, TypeNode.bare]
  rw [lookup_eq_some_iff h.nodup, hnames,
    List.getElem?_append_left (List.getElem?_eq_some_iff.mp hid).1]
  exact hid

end Grows

/-- Numbering one name. -/
theorem grows_intern (hnodup : g.names.Nodup) (name : String) :
    Grows g (g.intern name).1 [name] ∧
      (g.intern name).1.lookup name = some (g.intern name).2 := by
  unfold intern
  split
  · next id hid =>
    refine ⟨⟨hnodup, fun other => ?_, [], by simp⟩, hid⟩
    have hmem : name ∈ g.names := List.mem_of_getElem? (getElem?_of_lookup hid)
    constructor
    · exact .inl
    · rintro (h | h)
      · exact h
      · rw [List.mem_singleton.mp h]; exact hmem
  · next hnone =>
    have hnew : name ∉ g.names := lookup_eq_none_iff.mp hnone
    have hnames : names ⟨g.nodes ++ [.bare name]⟩ = g.names ++ [name] := by
      simp [names, TypeNode.bare]
    have hnodup' : (names ⟨g.nodes ++ [.bare name]⟩).Nodup := by
      rw [hnames, List.nodup_append_comm]
      exact List.nodup_cons.mpr ⟨hnew, hnodup⟩
    refine ⟨⟨hnodup', fun other => ?_, [name], rfl⟩, ?_⟩
    · exact (congrArg (other ∈ ·) hnames).to_iff.trans List.mem_append
    · refine (lookup_eq_some_iff hnodup').mpr ?_
      rw [hnames]
      simp [names, size]

/-- Numbering several names. -/
theorem grows_internAll : ∀ (xs : List String) {g : TypeGraph}, g.names.Nodup →
    Grows g (g.internAll xs).1 xs ∧
      xs.filterMap (g.internAll xs).1.lookup = (g.internAll xs).2
  | [], _, hnodup => ⟨.refl hnodup, rfl⟩
  | x :: xs, g, hnodup => by
    obtain ⟨hgrows, hx⟩ := grows_intern hnodup x
    obtain ⟨hgrows', hxs⟩ := grows_internAll xs hgrows.nodup
    simp only [internAll]
    exact ⟨hgrows.trans hgrows', by rw [List.filterMap_cons, hgrows'.lookup hx, hxs]⟩

theorem lookup_congr (h : g.names = g'.names) (name : String) : g.lookup name = g'.lookup name := by
  rw [lookup_eq, lookup_eq, h]

theorem nodeOf_congr (h : g.names = g'.names) (decl : TypeDecl) :
    g.nodeOf decl = g'.nodeOf decl := by
  have hlookup : g.lookup = g'.lookup := funext (lookup_congr h)
  simp only [nodeOf, hlookup]

/-! ## Filling in a node -/

/-- The graph with the node of a declared type filled in. -/
def fill (g : TypeGraph) (id : TypeId) (decl : TypeDecl) : TypeGraph :=
  ⟨g.nodes.set id (g.nodeOf decl)⟩

variable {decl : TypeDecl}

theorem getElem?_fill_self (hid : g.lookup decl.id = some id) :
    (g.fill id decl).nodes[id]? = some (g.nodeOf decl) :=
  List.getElem?_set_self (lookup_lt hid)

theorem getElem?_fill_ne {i : TypeId} (h : id ≠ i) :
    (g.fill id decl).nodes[i]? = g.nodes[i]? :=
  List.getElem?_set_ne h

/-- The name of the node is that of the declaration already. -/
theorem names_fill (hid : g.lookup decl.id = some id) : (g.fill id decl).names = g.names := by
  refine List.ext_getElem? fun i => ?_
  by_cases hi : id = i
  · subst hi
    rw [getElem?_of_lookup hid, names, List.getElem?_map, getElem?_fill_self hid]
    rfl
  · rw [names, names, List.getElem?_map, List.getElem?_map, getElem?_fill_ne hi]

theorem declare_eq_fill (hid : g.lookup decl.id = some id) {superclass : Option TypeId}
    {interfaces : List TypeId} (hsuper : decl.superclass.bind g.lookup = superclass)
    (hinter : decl.interfaces.filterMap g.lookup = interfaces) :
    g.declare id decl.kind superclass interfaces = g.fill id decl := by
  refine congrArg TypeGraph.mk (List.ext_getElem? fun i => ?_)
  by_cases hi : id = i
  · subst hi
    have hname := getElem?_of_lookup hid
    rw [names, List.getElem?_map] at hname
    obtain ⟨node, hnode, hname⟩ := Option.map_eq_some_iff.mp hname
    rw [List.getElem?_modify_eq, List.getElem?_set_self (lookup_lt hid), hnode]
    simp [nodeOf, hname, hsuper, hinter]
  · rw [List.getElem?_modify_ne _ _ hi, List.getElem?_set_ne hi]

end TypeGraph

namespace Program

open TypeGraph

/-! ## One declaration -/

/-- A type is declared if its number is in the table of types. -/
theorem type?_eq_none_iff {p : Program} {id : TypeId} :
    p.type? id = none ↔ ∀ t ∈ p.types, t.id ≠ id := by
  simp [type?]

/-- Taking in a declaration whose name is not declared yet: the graph
grows by the names of the declaration, and its node is filled in. -/
theorem declare_new {p : Program} {decl : TypeDecl} (hnodup : p.graph.names.Nodup)
    (hnew : p.type? (p.graph.intern decl.id).2 = none) :
    ∃ g id, Grows p.graph g decl.named ∧ g.lookup decl.id = some id ∧ p.type? id = none ∧
      p.declare decl = .ok
        { graph := g.fill id decl
          types := p.types ++ [⟨id, decl⟩]
          methods := p.methods ++ number id p.methods.length decl.methods } := by
  obtain ⟨hid, hfound⟩ := grows_intern hnodup decl.id
  unfold declare
  simp only [hnew, Option.isSome_none, Bool.false_eq_true, if_false]
  cases hsuper : decl.superclass with
  | none =>
    obtain ⟨hgrows, hinter⟩ := grows_internAll decl.interfaces hid.nodup
    refine ⟨_, _, ?_, hgrows.lookup hfound, hnew, ?_⟩
    · simpa [TypeDecl.named, hsuper] using hid.trans hgrows
    · have hnone : ∀ g : TypeGraph, decl.superclass.bind g.lookup = none := by simp [hsuper]
      simp only [declare_eq_fill (hgrows.lookup hfound) (hnone _) hinter]
  | some name =>
    obtain ⟨hname, hnamed⟩ := grows_intern hid.nodup name
    obtain ⟨hgrows, hinter⟩ := grows_internAll decl.interfaces hname.nodup
    refine ⟨_, _, ?_, hgrows.lookup (hname.lookup hfound), hnew, ?_⟩
    · simpa [TypeDecl.named, hsuper] using hid.trans (hname.trans hgrows)
    · have hsome := hgrows.lookup hnamed
      rw [← Option.bind_some (f := TypeGraph.lookup _), ← hsuper] at hsome
      simp only [declare_eq_fill (hgrows.lookup (hname.lookup hfound)) hsome hinter]

/-! ## Tables and declarations -/

/-- The tables hold these declarations. -/
structure Describes (p : Program) (decls : List TypeDecl) : Prop where
  /-- The types are the declarations in their order. -/
  types : p.types.map (·.decl) = decls
  /-- No name is declared twice. -/
  distinct : (decls.map (·.id)).Nodup
  /-- No name has two numbers. -/
  nodup : p.graph.names.Nodup
  /-- A name has a number if a declaration names it. -/
  mem_names : ∀ name, name ∈ p.graph.names ↔ ∃ decl ∈ decls, name ∈ decl.named
  /-- The number of a type is that of its name. -/
  lookup_type : ∀ t ∈ p.types, p.graph.lookup t.decl.id = some t.id
  /-- The node of a declared type is as declared. -/
  node_type : ∀ t ∈ p.types, p.graph.nodes[t.id]? = some (p.graph.nodeOf t.decl)
  /-- Every other node has a name and no more. -/
  node_bare : ∀ id node, p.graph.nodes[id]? = some node → p.type? id = none →
    node = TypeNode.bare node.name
  /-- The methods are those of the types, in order. -/
  methods : p.methods.map (fun m => (m.owner, m.decl))
    = p.types.flatMap fun t => t.decl.methods.map fun decl => (t.id, decl)
  /-- The number of a method is its place. -/
  methodIds : p.methods.map (·.id) = List.range p.methods.length

theorem describes_empty : Describes {} [] where
  types := rfl
  distinct := List.nodup_nil
  nodup := List.nodup_nil
  mem_names := by simp [TypeGraph.names]
  lookup_type := nofun
  node_type := nofun
  node_bare := nofun
  methods := rfl
  methodIds := rfl

theorem map_number (owner : TypeId) : ∀ (next : MethodId) (decls : List MethodDecl),
    (number owner next decls).map (fun m => (m.owner, m.decl)) = decls.map fun m => (owner, m)
  | _, [] => rfl
  | next, decl :: decls => by simp [number, map_number owner (next + 1) decls]

namespace Describes

variable {p : Program} {decls : List TypeDecl} {decl : TypeDecl} {t : DeclaredType} {id : TypeId}

theorem mem_types (h : p.Describes decls) : (∃ t ∈ p.types, t.decl = decl) ↔ decl ∈ decls := by
  rw [← h.types, List.mem_map]

/-- Every name of a declaration has a number. -/
theorem exists_lookup (h : p.Describes decls) (hdecl : decl ∈ decls) {name : String}
    (hname : name ∈ decl.named) : ∃ id, p.graph.lookup name = some id := by
  refine Option.ne_none_iff_exists'.mp fun hnone => ?_
  exact TypeGraph.lookup_eq_none_iff.mp hnone ((h.mem_names name).mpr ⟨decl, hdecl, hname⟩)

theorem getElem?_type (h : p.Describes decls) (ht : t ∈ p.types) :
    p.graph.names[t.id]? = some t.decl.id :=
  TypeGraph.getElem?_of_lookup (h.lookup_type t ht)

theorem name_type (h : p.Describes decls) (ht : t ∈ p.types) : p.graph.name t.id = t.decl.id :=
  TypeGraph.name_of_lookup (h.lookup_type t ht)

/-- Numbers of types are as distinct as their names. -/
theorem nodup_ids (h : p.Describes decls) : (p.types.map (·.id)).Nodup := by
  have hnodup := h.distinct
  rw [← h.types, List.map_map] at hnodup
  refine List.pairwise_map.mpr ((List.pairwise_map.mp hnodup).imp_of_mem ?_)
  intro a b ha hb hne hid
  have hname := h.getElem?_type ha
  rw [hid, h.getElem?_type hb] at hname
  exact hne (Option.some.inj hname).symm

/-- A name that is declared already is refused. -/
theorem declare_eq_duplicate (h : p.Describes decls) (hdecl : decl.id ∈ decls.map (·.id)) :
    p.declare decl = .error (.duplicateType decl.id) := by
  obtain ⟨other, hother, hid⟩ := List.mem_map.mp hdecl
  obtain ⟨t, ht, rfl⟩ := h.mem_types.mpr hother
  have hlookup := h.lookup_type t ht
  have hintern : p.graph.intern decl.id = (p.graph, t.id) := by
    simp [TypeGraph.intern, ← hid, hlookup]
  have hsome : (p.type? t.id).isSome = true := by
    rw [Option.isSome_iff_ne_none]
    intro hnone
    exact type?_eq_none_iff.mp hnone t ht rfl
  simp [Program.declare, hintern, hsome]

/-- A name that is not declared yet has no declared type. -/
theorem type?_intern (h : p.Describes decls) (hdecl : decl.id ∉ decls.map (·.id)) :
    p.type? (p.graph.intern decl.id).2 = none := by
  refine type?_eq_none_iff.mpr fun t ht hid => hdecl ?_
  obtain ⟨hgrows, hlookup⟩ := TypeGraph.grows_intern h.nodup decl.id
  have hname := TypeGraph.getElem?_of_lookup hlookup
  rw [← hid, TypeGraph.getElem?_of_lookup (hgrows.lookup (h.lookup_type t ht))] at hname
  rw [← Option.some.inj hname]
  exact List.mem_map_of_mem (h.mem_types.mp ⟨t, ht, rfl⟩)

/-- The type that declares a method is a declared type. -/
theorem exists_owner (h : p.Describes decls) {m : Method} (hm : m ∈ p.methods) :
    ∃ t ∈ p.types, t.id = m.owner ∧ m.decl ∈ t.decl.methods := by
  have hmem : (m.owner, m.decl) ∈ p.methods.map (fun m => (m.owner, m.decl)) :=
    List.mem_map_of_mem hm
  rw [h.methods] at hmem
  obtain ⟨t, ht, hmem⟩ := List.mem_flatMap.mp hmem
  obtain ⟨decl, hdecl, heq⟩ := List.mem_map.mp hmem
  obtain ⟨howner, rfl⟩ := Prod.mk.inj heq
  exact ⟨t, ht, howner, hdecl⟩

theorem type_lt (h : p.Describes decls) (ht : t ∈ p.types) : t.id < p.graph.size :=
  TypeGraph.lookup_lt (h.lookup_type t ht)

theorem tables (h : p.Describes decls) : p.Tables where
  methodIds := h.methodIds
  ownerKnown := by
    intro m hm
    obtain ⟨t, ht, howner, _⟩ := h.exists_owner hm
    rw [← howner]
    exact h.type_lt ht

/-- What a declaration says about its node does not change as the graph
grows. -/
theorem nodeOf_grows (h : p.Describes decls) (ht : t ∈ p.types) {g : TypeGraph}
    {names : List String} (hgrows : TypeGraph.Grows p.graph g names) :
    g.nodeOf t.decl = p.graph.nodeOf t.decl := by
  have hsame : ∀ name ∈ t.decl.named, g.lookup name = p.graph.lookup name := by
    intro name hname
    obtain ⟨id, hid⟩ := h.exists_lookup (h.mem_types.mp ⟨t, ht, rfl⟩) hname
    rw [hid, hgrows.lookup hid]
  have hsuper : t.decl.superclass.bind g.lookup = t.decl.superclass.bind p.graph.lookup := by
    cases hname : t.decl.superclass with
    | none => rfl
    | some name => exact hsame name (by simp [TypeDecl.named, hname])
  have hinter : t.decl.interfaces.filterMap g.lookup
      = t.decl.interfaces.filterMap p.graph.lookup := by
    apply List.filterMap_congr
    intro name hname
    exact hsame name (by simp [TypeDecl.named, hname])
  simp only [TypeGraph.nodeOf, hsuper, hinter]

/-- The tables of methods, after one more declaration. -/
theorem methods_declare (h : p.Describes decls) (id : TypeId) (decl : TypeDecl) :
    (p.methods ++ number id p.methods.length decl.methods).map (fun m => (m.owner, m.decl))
      = (p.types ++ [(⟨id, decl⟩ : DeclaredType)]).flatMap fun t =>
          t.decl.methods.map fun m => (t.id, m) := by
  rw [List.map_append, h.methods, map_number, List.flatMap_append, List.flatMap_singleton]

/-- **One more declaration.** -/
theorem declare (h : p.Describes decls) (hdecl : decl.id ∉ decls.map (·.id)) :
    ∃ p', p.declare decl = .ok p' ∧ p'.Describes (decls ++ [decl]) := by
  obtain ⟨g, id, hgrows, hid, hnew, heq⟩ := declare_new h.nodup (h.type?_intern hdecl)
  have hnames := TypeGraph.names_fill hid
  have hold : ∀ t ∈ p.types, t.id ≠ id := type?_eq_none_iff.mp hnew
  obtain ⟨new, hnodes⟩ := hgrows.nodes
  refine ⟨_, heq, ?_⟩
  constructor
  · simp [h.types]
  · rw [List.map_append, List.map_singleton, List.nodup_append_comm]
    exact List.nodup_cons.mpr ⟨hdecl, h.distinct⟩
  · rw [hnames]; exact hgrows.nodup
  · intro name
    rw [hnames, hgrows.mem_names, h.mem_names]
    simp only [List.mem_append, List.mem_singleton, or_and_right, exists_or, exists_eq_left]
  · refine List.forall_mem_append.mpr ⟨fun t ht => ?_, List.forall_mem_singleton.mpr ?_⟩
    · rw [TypeGraph.lookup_congr hnames]; exact hgrows.lookup (h.lookup_type t ht)
    · rw [TypeGraph.lookup_congr hnames]; exact hid
  · refine List.forall_mem_append.mpr ⟨fun t ht => ?_, List.forall_mem_singleton.mpr ?_⟩
    · have hlt := (List.getElem?_eq_some_iff.mp (h.node_type t ht)).1
      rw [TypeGraph.nodeOf_congr hnames, h.nodeOf_grows ht hgrows,
        TypeGraph.getElem?_fill_ne (hold t ht).symm, hnodes, List.getElem?_append_left hlt]
      exact h.node_type t ht
    · rw [TypeGraph.nodeOf_congr hnames]
      exact TypeGraph.getElem?_fill_self hid
  · intro i node hnode hnone
    obtain ⟨hnone, hne⟩ := List.forall_mem_append.mp (type?_eq_none_iff.mp hnone)
    have hne : id ≠ i := hne _ (List.mem_singleton_self _)
    rw [TypeGraph.getElem?_fill_ne hne, hnodes] at hnode
    -- The node was there before, or it is one of those added.
    rcases Nat.lt_or_ge i p.graph.nodes.length with hlt | hge
    · rw [List.getElem?_append_left hlt] at hnode
      exact h.node_bare i node hnode (type?_eq_none_iff.mpr hnone)
    · rw [List.getElem?_append_right hge, List.getElem?_map] at hnode
      obtain ⟨name, _, rfl⟩ := Option.map_eq_some_iff.mp hnode
      rfl
  · exact h.methods_declare id decl
  · exact (h.tables.declare heq).methodIds

/-- A run over further declarations with new names. -/
theorem foldlM_declare : ∀ (more : List TypeDecl) {p : Program} {decls : List TypeDecl},
    p.Describes decls → ((decls ++ more).map (·.id)).Nodup →
      ∃ p', more.foldlM Program.declare p = .ok p' ∧ p'.Describes (decls ++ more)
  | [], p, decls, h, _ => ⟨p, rfl, by simpa using h⟩
  | decl :: more, p, decls, h, hnodup => by
    have hnodup' : ((decls ++ [decl] ++ more).map (·.id)).Nodup := by simpa using hnodup
    have hnew : decl.id ∉ decls.map (·.id) := by
      rw [List.map_append] at hnodup
      exact fun hmem => (List.nodup_append.mp hnodup).2.2 _ hmem _ (by simp) rfl
    obtain ⟨next, hnext, hdescribes⟩ := h.declare hnew
    obtain ⟨p', hrun, hdescribes'⟩ := foldlM_declare more hdescribes hnodup'
    refine ⟨p', ?_, by simpa using hdescribes'⟩
    rw [List.foldlM_cons, hnext]
    exact hrun

end Describes

/-! ## Looking things up -/

/-- Where keys are distinct, looking up by key finds what has the key. -/
theorem find?_eq_some_iff_of_nodup {α κ : Type} [DecidableEq κ] {key : α → κ} {l : List α}
    (hnodup : (l.map key).Nodup) {k : κ} {a : α} :
    l.find? (fun x => key x = k) = some a ↔ a ∈ l ∧ key a = k := by
  constructor
  · intro h
    exact ⟨List.mem_of_find?_eq_some h, by simpa using List.find?_some h⟩
  · rintro ⟨ha, rfl⟩
    cases hfound : l.find? (fun x => key x = key a) with
    | none => simpa using List.find?_eq_none.mp hfound a ha
    | some other =>
      have hkey : key other = key a := by simpa using List.find?_some hfound
      rw [List.inj_on_of_nodup_map hnodup (List.mem_of_find?_eq_some hfound) ha hkey]

theorem type?_eq_some_iff {p : Program} (hnodup : (p.types.map (·.id)).Nodup) {id : TypeId}
    {decl : TypeDecl} : p.type? id = some decl ↔ ⟨id, decl⟩ ∈ p.types := by
  rw [type?, Option.map_eq_some_iff]
  constructor
  · rintro ⟨t, ht, rfl⟩
    obtain ⟨hmem, rfl⟩ := (find?_eq_some_iff_of_nodup hnodup).mp ht
    exact hmem
  · intro hmem
    exact ⟨_, (find?_eq_some_iff_of_nodup hnodup).mpr ⟨hmem, rfl⟩, rfl⟩

namespace Describes

variable {p : Program} {decls : List TypeDecl} {t : DeclaredType} {id : TypeId}

theorem type?_type (h : p.Describes decls) (ht : t ∈ p.types) : p.type? t.id = some t.decl :=
  (type?_eq_some_iff h.nodup_ids).mpr ht

/-- A declared type is known by its name. -/
theorem type_ext (h : p.Describes decls) {s t : DeclaredType} (hs : s ∈ p.types) (ht : t ∈ p.types)
    (hname : s.decl.id = t.decl.id) : s = t := by
  have hid := h.lookup_type s hs
  rw [hname, h.lookup_type t ht] at hid
  exact List.inj_on_of_nodup_map h.nodup_ids hs ht (Option.some.inj hid).symm

/-- Numbers lead back to names. -/
theorem map_name_filterMap (h : p.Describes decls) {decl : TypeDecl} (hdecl : decl ∈ decls) :
    ∀ {names : List String}, names ⊆ decl.named →
      (names.filterMap p.graph.lookup).map p.graph.name = names
  | [], _ => rfl
  | name :: names, hsub => by
    obtain ⟨hname, hnames⟩ := List.cons_subset.mp hsub
    obtain ⟨id, hid⟩ := h.exists_lookup hdecl hname
    rw [List.filterMap_cons, hid, List.map_cons, h.map_name_filterMap hdecl hnames,
      TypeGraph.name_of_lookup hid]

/-- The supertypes of a declared type are its superclass, then its
interfaces. -/
theorem map_name_supertypes (h : p.Describes decls) (ht : t ∈ p.types) :
    (p.graph.supertypes t.id).map p.graph.name
      = t.decl.superclass.toList ++ t.decl.interfaces := by
  have hdecl : t.decl ∈ decls := h.mem_types.mp ⟨t, ht, rfl⟩
  have hsupertypes : p.graph.supertypes t.id
      = (t.decl.superclass.toList ++ t.decl.interfaces).filterMap p.graph.lookup := by
    rw [TypeGraph.supertypes, h.node_type t ht, List.filterMap_append]
    cases hsuper : t.decl.superclass with
    | none => simp [TypeGraph.nodeOf, hsuper]
    | some name =>
      cases hname : p.graph.lookup name <;> simp [TypeGraph.nodeOf, hsuper, hname]
  rw [hsupertypes]
  exact h.map_name_filterMap hdecl (List.subset_cons_self _ _)

/-- A type that is only named has neither kind nor supertypes. -/
theorem of_type?_eq_none (h : p.Describes decls) (hnone : p.type? id = none) :
    p.graph.kind id = none ∧ p.graph.superclass id = none ∧ p.graph.supertypes id = [] := by
  cases hnode : p.graph.nodes[id]? with
  | none => simp [TypeGraph.kind, TypeGraph.superclass, TypeGraph.supertypes, hnode]
  | some node =>
    have hbare := h.node_bare id node hnode hnone
    rw [TypeGraph.kind, TypeGraph.superclass, TypeGraph.supertypes, hnode, hbare]
    exact ⟨rfl, rfl, rfl⟩

/-- Every edge leads to a node. -/
theorem supertypes_lt (h : p.Describes decls) {parent : TypeId}
    (hp : parent ∈ p.graph.supertypes id) : parent < p.graph.size := by
  cases htype : p.type? id with
  | none =>
    rw [(h.of_type?_eq_none htype).2.2] at hp
    cases hp
  | some decl =>
    have hnode := h.node_type _ ((type?_eq_some_iff h.nodup_ids).mp htype)
    rw [TypeGraph.supertypes, hnode] at hp
    rcases List.mem_append.mp hp with hp | hp
    · obtain ⟨name, _, hname⟩ := Option.bind_eq_some_iff.mp (Option.mem_toList.mp hp)
      exact TypeGraph.lookup_lt hname
    · obtain ⟨name, _, hname⟩ := List.mem_filterMap.mp hp
      exact TypeGraph.lookup_lt hname

/-- The methods of a type are those it declares, in order. -/
theorem map_decl_methodsOf (h : p.Describes decls) (ht : t ∈ p.types) :
    (p.methodsOf t.id).map (·.decl) = t.decl.methods := by
  obtain ⟨before, after, hsplit⟩ := List.append_of_mem ht
  have hids := h.nodup_ids
  rw [hsplit, List.map_append, List.map_cons] at hids
  have hbefore : ∀ t' ∈ before, t'.id ≠ t.id := fun t' ht' =>
    (List.nodup_append.mp hids).2.2 _ (List.mem_map_of_mem ht') _ List.mem_cons_self
  have hafter : ∀ t' ∈ after, t'.id ≠ t.id := fun t' ht' heq =>
    (List.nodup_cons.mp (List.nodup_append.mp hids).2.1).1 (heq ▸ List.mem_map_of_mem ht')
  have hskip : ∀ types : List DeclaredType, (∀ t' ∈ types, t'.id ≠ t.id) →
      (types.flatMap fun t => t.decl.methods.map fun m => (t.id, m)).filter (·.1 = t.id) = [] := by
    intro types hne
    refine List.filter_eq_nil_iff.mpr fun pair hpair => ?_
    obtain ⟨t', ht', hpair⟩ := List.mem_flatMap.mp hpair
    obtain ⟨m, _, rfl⟩ := List.mem_map.mp hpair
    simpa using hne t' ht'
  have hown : (t.decl.methods.map fun m => (t.id, m)).filter (·.1 = t.id)
      = t.decl.methods.map fun m => (t.id, m) := by
    refine List.filter_eq_self.mpr fun pair hpair => ?_
    obtain ⟨m, _, rfl⟩ := List.mem_map.mp hpair
    simp
  calc (p.methodsOf t.id).map (·.decl)
      = ((p.methods.map fun m => (m.owner, m.decl)).filter (·.1 = t.id)).map (·.2) := by
        rw [methodsOf, List.filter_map, List.map_map]
        rfl
    _ = (t.decl.methods.map fun m => (t.id, m)).map (·.2) := by
        rw [h.methods, hsplit, List.flatMap_append, List.flatMap_cons, List.filter_append,
          List.filter_append, hskip before hbefore, hskip after hafter, hown, List.nil_append,
          List.append_nil]
    _ = t.decl.methods := by simp [Function.comp_def]

end Describes

/-! ## A whole run -/

/-- **Models that declare no name twice are built, and the tables hold
their declarations.** -/
theorem describes_build {models : List Model}
    (hnodup : ((models.flatMap (·.types)).map (·.id)).Nodup) :
    ∃ p, build models = .ok p ∧ p.Describes (models.flatMap (·.types)) :=
  describes_empty.foldlM_declare _ hnodup

/-- The declaration is the first one of a name that is declared already. -/
structure FirstRepeat (decls : List TypeDecl) (name : String) : Prop where
  split : ∃ before decl after, decls = before ++ decl :: after ∧ decl.id = name ∧
    (before.map (·.id)).Nodup ∧ name ∈ before.map (·.id)

theorem exists_firstRepeat {decls : List TypeDecl} (h : ¬ (decls.map (·.id)).Nodup) :
    ∃ name, FirstRepeat decls name := by
  induction decls using List.reverseRecOn with
  | nil => exact absurd List.nodup_nil h
  | append_singleton decls decl ih =>
    by_cases hnodup : (decls.map (·.id)).Nodup
    · refine ⟨decl.id, decls, decl, [], rfl, rfl, hnodup, ?_⟩
      by_contra hnew
      refine h ?_
      rw [List.map_append, List.map_singleton, List.nodup_append_comm]
      exact List.nodup_cons.mpr ⟨hnew, hnodup⟩
    · obtain ⟨name, before, repeated, after, rfl, hrepeated⟩ := ih hnodup
      exact ⟨name, before, repeated, after ++ [decl], by simp, hrepeated⟩

/-- The run stops there. -/
theorem FirstRepeat.build_eq {models : List Model} {name : String}
    (h : FirstRepeat (models.flatMap (·.types)) name) :
    build models = .error (.duplicateType name) := by
  obtain ⟨before, decl, after, hsplit, rfl, hnodup, hmem⟩ := h
  obtain ⟨p, hrun, hdescribes⟩ := describes_empty.foldlM_declare before hnodup
  rw [build, hsplit, List.foldlM_append, hrun]
  show List.foldlM Program.declare p (decl :: after) = _
  rw [List.foldlM_cons, hdescribes.declare_eq_duplicate hmem]
  rfl

/-- **A run fails at the first declaration that repeats a name**, and only
there. -/
theorem build_eq_error_iff {models : List Model} {e : Error} :
    build models = .error e ↔
      ∃ name, e = .duplicateType name ∧ FirstRepeat (models.flatMap (·.types)) name := by
  constructor
  · intro h
    by_cases hnodup : ((models.flatMap (·.types)).map (·.id)).Nodup
    · obtain ⟨p, hbuild, _⟩ := describes_build hnodup
      cases hbuild.symm.trans h
    · obtain ⟨name, hrepeat⟩ := exists_firstRepeat hnodup
      cases hrepeat.build_eq.symm.trans h
      exact ⟨name, rfl, hrepeat⟩
  · rintro ⟨name, rfl, hrepeat⟩
    exact hrepeat.build_eq

theorem nodup_of_build {models : List Model} {p : Program} (h : build models = .ok p) :
    ((models.flatMap (·.types)).map (·.id)).Nodup := by
  by_contra hnodup
  obtain ⟨name, hrepeat⟩ := exists_firstRepeat hnodup
  cases hrepeat.build_eq.symm.trans h

theorem describes_of_build {models : List Model} {p : Program} (h : build models = .ok p) :
    p.Describes (models.flatMap (·.types)) := by
  obtain ⟨p', hbuild, hdescribes⟩ := describes_build (nodup_of_build h)
  cases h.symm.trans hbuild
  exact hdescribes

end Program

end ApiStubs
