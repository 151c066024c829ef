/-
ApiStubs.Proofs.ProgramTheorems — the tables that a built program has.

A program is built one declaration at a time, and every later stage
relies on how its tables fit together: the number of a method is its
place in the list of all methods, and the type that declares a method is
a node of the graph. `Tables` names these facts. `Tables.declare` keeps
them over one declaration, and `tables_of_build` has them of every
program that some models build. That no type is a proper supertype of
itself, whatever cycles there are, holds of every graph.
-/
import Mathlib.Data.List.Nodup
import ApiStubs.Program

namespace ApiStubs

/-! ## The graph only grows -/

namespace TypeGraph

theorem lookup_lt {g : TypeGraph} {name : String} {id : TypeId} (h : g.lookup name = some id) :
    id < g.size := by
  obtain ⟨hlt, _⟩ := List.findIdx?_eq_some_iff_getElem.mp h
  exact hlt

theorem size_le_intern (g : TypeGraph) (name : String) : g.size ≤ (g.intern name).1.size := by
  unfold intern
  split
  · exact Nat.le_refl _
  · simp [size]

/-- The number that a name gets is one of the graph's. -/
theorem intern_lt (g : TypeGraph) (name : String) : (g.intern name).2 < (g.intern name).1.size := by
  unfold intern
  split
  · next id hid => exact lookup_lt hid
  · simp [size]

theorem size_le_internAll :
    ∀ (names : List String) (g : TypeGraph), g.size ≤ (g.internAll names).1.size
  | [], g => Nat.le_refl _
  | name :: names, g => by
    simp only [internAll]
    exact Nat.le_trans (size_le_intern g name) (size_le_internAll names (g.intern name).1)

@[simp] theorem size_declare (g : TypeGraph) (id : TypeId) (kind : TypeKind)
    (superclass : Option TypeId) (interfaces : List TypeId) :
    (g.declare id kind superclass interfaces).size = g.size := by
  simp [declare, size]

/-! ## Proper supertypes -/

/-- A walk does not come back to what it has seen. -/
theorem not_mem_visit {g : TypeGraph} {id : TypeId} {seen queue : List TypeId}
    (hid : id ∈ seen) : id ∉ g.visit seen queue := by
  fun_induction visit g seen queue with
  | case1 => simp
  | case2 seen next queue hseen ih => exact ih hid
  | case3 seen next queue hseen ih =>
    rintro (_ | ⟨_, hmem⟩)
    · exact hseen hid
    · exact ih (List.mem_cons_of_mem _ hid) hmem

theorem not_mem_ancestors (g : TypeGraph) (id : TypeId) : id ∉ g.ancestors id :=
  not_mem_visit List.mem_cons_self

end TypeGraph

namespace Program

/-! ## Numbering methods -/

theorem map_id_number (owner : TypeId) :
    ∀ (next : MethodId) (decls : List MethodDecl),
      (number owner next decls).map (·.id) = List.range' next decls.length
  | _, [] => rfl
  | next, decl :: decls => by
    simp [number, List.range'_succ, map_id_number owner (next + 1) decls]

theorem owner_of_mem_number {owner : TypeId} {m : Method} :
    ∀ {next : MethodId} {decls : List MethodDecl}, m ∈ number owner next decls → m.owner = owner
  | _, _ :: _, h => by
    rcases List.mem_cons.mp h with rfl | h
    · rfl
    · exact owner_of_mem_number h

theorem decl_of_mem_number {owner : TypeId} {m : Method} :
    ∀ {next : MethodId} {decls : List MethodDecl}, m ∈ number owner next decls → m.decl ∈ decls
  | _, _ :: _, h => by
    rcases List.mem_cons.mp h with rfl | h
    · exact List.mem_cons_self
    · exact List.mem_cons_of_mem _ (decl_of_mem_number h)

/-! ## One declaration -/

/-- Everything that taking in a declaration does to the tables. The graph
may get nodes for the names it did not have; types and methods are added
at the end. -/
theorem declare_cases {p p' : Program} {decl : TypeDecl} (h : p.declare decl = .ok p') :
    ∃ id, p.type? id = none ∧ id < p'.graph.size ∧ p.graph.size ≤ p'.graph.size ∧
      p'.types = p.types ++ [⟨id, decl⟩] ∧
      p'.methods = p.methods ++ number id p.methods.length decl.methods := by
  simp only [declare] at h
  split at h
  · cases h
  · next hnew =>
    have hid := p.graph.intern_lt decl.id
    have hsize := p.graph.size_le_intern decl.id
    split at h
    · next name hname =>
      have hgrown : (p.graph.intern decl.id).1.size ≤
          (((p.graph.intern decl.id).1.intern name).1.internAll decl.interfaces).1.size :=
        Nat.le_trans (TypeGraph.size_le_intern _ name) (TypeGraph.size_le_internAll _ _)
      cases h
      refine ⟨(p.graph.intern decl.id).2, by simpa using hnew, ?_, ?_, rfl, rfl⟩
      · rw [TypeGraph.size_declare]; exact Nat.lt_of_lt_of_le hid hgrown
      · rw [TypeGraph.size_declare]; exact Nat.le_trans hsize hgrown
    · have hgrown := TypeGraph.size_le_internAll decl.interfaces (p.graph.intern decl.id).1
      cases h
      refine ⟨(p.graph.intern decl.id).2, by simpa using hnew, ?_, ?_, rfl, rfl⟩
      · rw [TypeGraph.size_declare]; exact Nat.lt_of_lt_of_le hid hgrown
      · rw [TypeGraph.size_declare]; exact Nat.le_trans hsize hgrown

/-! ## A whole run -/

/-- What holds of the empty program and is kept by every declaration of the
models holds of the program that is built. -/
theorem build_induction {P : Program → Prop} {models : List Model} {p : Program} (empty : P {})
    (step : ∀ p decl p', decl ∈ models.flatMap (·.types) → P p → p.declare decl = .ok p' → P p')
    (h : build models = .ok p) : P p := by
  have run : ∀ (decls : List TypeDecl) (start : Program), decls ⊆ models.flatMap (·.types) →
      P start → decls.foldlM declare start = .ok p → P p := by
    intro decls
    induction decls with
    | nil => intro start _ hs h; cases h; exact hs
    | cons decl decls ih =>
      intro start hsub hs h
      obtain ⟨hmem, hsub⟩ := List.cons_subset.mp hsub
      rw [List.foldlM_cons] at h
      cases hd : start.declare decl with
      | error e => rw [hd] at h; cases h
      | ok next =>
        rw [hd] at h
        exact ih next hsub (step start decl next hmem hs hd) h
  exact run _ _ (List.Subset.refl _) empty h

/-- How the tables of a program fit together. -/
structure Tables (p : Program) : Prop where
  /-- The number of a method is its place. -/
  methodIds : p.methods.map (·.id) = List.range p.methods.length
  /-- What declares a method is a node of the graph. -/
  ownerKnown : ∀ m ∈ p.methods, m.owner < p.graph.size

theorem Tables.declare {p p' : Program} {decl : TypeDecl} (tables : p.Tables)
    (h : p.declare decl = .ok p') : p'.Tables := by
  obtain ⟨id, _, hid, hsize, _, hmethods⟩ := declare_cases h
  constructor
  · rw [hmethods, List.map_append, map_id_number, tables.methodIds, List.length_append]
    have hlen : (number id p.methods.length decl.methods).length = decl.methods.length := by
      simpa using congrArg List.length (map_id_number id p.methods.length decl.methods)
    rw [hlen, List.range_eq_range', List.range_eq_range']
    simpa using List.range'_append_1 (s := 0) (m := p.methods.length) (n := decl.methods.length)
  · intro m hm
    rw [hmethods] at hm
    rcases List.mem_append.mp hm with hm | hm
    · exact Nat.lt_of_lt_of_le (tables.ownerKnown m hm) hsize
    · rw [owner_of_mem_number hm]; exact hid

/-- **Built programs have their tables.** -/
theorem tables_of_build {models : List Model} {p : Program} (h : build models = .ok p) : p.Tables :=
  build_induction ⟨rfl, by simp⟩ (fun _ _ _ _ tables h => tables.declare h) h

/-- Everything in the tables was declared in some models. -/
structure ComesFrom (p : Program) (models : List Model) : Prop where
  types : ∀ t ∈ p.types, t.decl ∈ models.flatMap (·.types)
  methods : ∀ m ∈ p.methods, ∃ decl ∈ models.flatMap (·.types), m.decl ∈ decl.methods

theorem ComesFrom.declare {p p' : Program} {models : List Model} {decl : TypeDecl}
    (comesFrom : p.ComesFrom models) (hdecl : decl ∈ models.flatMap (·.types))
    (h : p.declare decl = .ok p') : p'.ComesFrom models := by
  obtain ⟨id, _, _, _, htypes, hmethods⟩ := declare_cases h
  constructor
  · rw [htypes]
    exact List.forall_mem_append.mpr ⟨comesFrom.types, List.forall_mem_singleton.mpr hdecl⟩
  · rw [hmethods]
    refine List.forall_mem_append.mpr ⟨comesFrom.methods, fun m hm => ⟨decl, hdecl, ?_⟩⟩
    exact decl_of_mem_number hm

/-- **Built programs hold nothing but what the models declare.** -/
theorem comesFrom_of_build {models : List Model} {p : Program} (h : build models = .ok p) :
    p.ComesFrom models :=
  build_induction (P := (ComesFrom · models)) ⟨nofun, nofun⟩
    (fun _ _ _ hdecl comesFrom h => comesFrom.declare hdecl h) h

/-- Methods are numbered in increasing order. -/
theorem Tables.methods_increasing {p : Program} (tables : p.Tables) :
    p.methods.Pairwise fun a b => a.id < b.id := by
  have hrange : (p.methods.map (·.id)).Pairwise (· < ·) := by
    rw [tables.methodIds]; exact List.pairwise_lt_range
  exact List.pairwise_map.mp hrange

theorem Tables.methodsOf_increasing {p : Program} (tables : p.Tables) (id : TypeId) :
    (p.methodsOf id).Pairwise fun a b => a.id < b.id :=
  tables.methods_increasing.filter _

/-- A method is known by its number. -/
theorem Tables.method_ext {p : Program} (tables : p.Tables) {a b : Method} (ha : a ∈ p.methods)
    (hb : b ∈ p.methods) (hid : a.id = b.id) : a = b := by
  have hnodup : (p.methods.map (·.id)).Nodup := by
    rw [tables.methodIds]; exact List.nodup_range
  exact List.inj_on_of_nodup_map hnodup ha hb hid

theorem doc_of_inheritedDoc {p : Program} {m a : Method} {doc : DocComment}
    (h : p.inheritedDoc m = some (a, doc)) : a.decl.doc = some doc := by
  obtain ⟨candidate, _, hdoc⟩ := List.exists_of_findSome?_eq_some h
  obtain ⟨found, hfound, heq⟩ := Option.map_eq_some_iff.mp hdoc
  obtain ⟨rfl, rfl⟩ := Prod.mk.inj heq
  exact (Option.filter_eq_some_iff.mp hfound).1

/-- What a method inherits its documentation from is a method of another
type. -/
theorem owner_ne_of_inheritedDoc {p : Program} {m other : Method} {doc : DocComment}
    (h : p.inheritedDoc m = some (other, doc)) : other.owner ≠ m.owner := by
  obtain ⟨candidate, hmem, hdoc⟩ := List.exists_of_findSome?_eq_some h
  obtain ⟨_, _, heq⟩ := Option.map_eq_some_iff.mp hdoc
  obtain rfl : candidate = other := (Prod.mk.inj heq).1
  obtain ⟨t, ht, hcandidate⟩ := List.mem_flatMap.mp (List.mem_of_mem_filter hmem)
  rw [(mem_methodsOf.mp hcandidate).2]
  rintro rfl
  exact TypeGraph.not_mem_ancestors _ _ ht

end Program

end ApiStubs
