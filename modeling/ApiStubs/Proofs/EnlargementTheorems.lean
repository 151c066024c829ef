/-
ApiStubs.Proofs.EnlargementTheorems — more declarations, and other orders
of them.

Two lists of models may declare the same types, in another order and with
further ones among them. `Program.Enlarges` says so of the programs that
they build, on the side condition that nothing in the smaller program
mentions one of the further types (`TypeDecl.mentioned`). Then the smaller
program is found within the larger one: a type has the number that its
name has there, a method has its old place among the methods of its type
(`Renaming.between`). `Enlarges.extends_between` is the whole statement.

The side condition cannot be left out: a type that is only named has no
supertypes, and declaring it would give it some.
-/
import ApiStubs.Proofs.StubEmbedding

namespace ApiStubs

/-! ## What a declaration mentions -/

mutual

/-- The types that the references in a node lead to, at any depth. -/
def DocNode.targetIds : DocNode → List String
  | .reference r => r.target.toList.map Target.id
  | .link r label => r.target.toList.map Target.id ++ targetIdsAll label
  | .element _ _ children _ => targetIdsAll children
  | .param _ description => targetIdsAll description
  | .returns description => targetIdsAll description
  | .throws description => targetIdsAll description
  | .deprecated body => targetIdsAll body
  | .see target => targetIdsAll target
  | .blockTag _ content => targetIdsAll content
  | _ => []

def targetIdsAll : List DocNode → List String
  | [] => []
  | node :: nodes => node.targetIds ++ targetIdsAll nodes

end

/-- The types that the references in a comment lead to. -/
def docIds (doc : Option DocComment) : List String :=
  targetIdsAll ((doc.map (·.nodes)).getD [])

/-- Every type that a declaration mentions: its own name, its supertypes,
the types of parameters and results, and what documentation refers to. -/
def TypeDecl.mentioned (decl : TypeDecl) : List String :=
  decl.named ++ docIds decl.doc ++ decl.methods.flatMap fun m => m.typeIds ++ docIds m.doc

theorem mem_targetIdsAll {node : DocNode} {id : String} :
    ∀ {nodes : List DocNode}, node ∈ nodes → id ∈ node.targetIds → id ∈ targetIdsAll nodes
  | _ :: _, hnode, hid => by
    rw [targetIdsAll]
    rcases List.mem_cons.mp hnode with rfl | hnode
    · exact List.mem_append_left _ hid
    · exact List.mem_append_right _ (mem_targetIdsAll hnode hid)

theorem DocNode.targetIdsAll_children (node : DocNode) :
    targetIdsAll node.children ⊆ node.targetIds := by
  cases node <;> simp [DocNode.children, DocNode.targetIds, targetIdsAll]

theorem DocNode.id_mem_targetIds {node : DocNode} {target : Target}
    (h : node.target? = some target) : target.id ∈ node.targetIds := by
  cases node with
  | reference r => simp_all [DocNode.target?, DocNode.targetIds]
  | link r label => simp_all [DocNode.target?, DocNode.targetIds]
  | _ => cases h

/-- A reference at any depth is found. -/
theorem Occurs.id_mem_targetIdsAll {node : DocNode} {nodes : List DocNode} {target : Target}
    (h : Occurs node nodes) (htarget : node.target? = some target) :
    target.id ∈ targetIdsAll nodes := by
  induction h with
  | here hmem => exact mem_targetIdsAll hmem (DocNode.id_mem_targetIds htarget)
  | inside hmem _ ih => exact mem_targetIdsAll hmem (DocNode.targetIdsAll_children _ ih)

namespace Program

/-- What a program mentions, one of its declarations mentions. -/
theorem Describes.exists_mentioned {p : Program} {decls : List TypeDecl} (h : p.Describes decls)
    {name : String} (hname : p.Mentions name) : ∃ decl ∈ decls, name ∈ decl.mentioned := by
  rcases hname with ⟨target, ⟨owner, howner, node, hnode, htarget⟩, rfl⟩ | ⟨m, hm, hname⟩
  · have hid := hnode.id_mem_targetIdsAll htarget
    cases owner with
    | type decl =>
      exact ⟨decl, h.mem_types.mp howner, List.mem_append_left _ (List.mem_append_right _ hid)⟩
    | method m =>
      obtain ⟨t, ht, _, hdecl⟩ := h.exists_owner howner
      refine ⟨t.decl, h.mem_types.mp ⟨t, ht, rfl⟩, List.mem_append_right _ ?_⟩
      exact List.mem_flatMap.mpr ⟨m.decl, hdecl, List.mem_append_right _ hid⟩
  · obtain ⟨t, ht, _, hdecl⟩ := h.exists_owner hm
    refine ⟨t.decl, h.mem_types.mp ⟨t, ht, rfl⟩, List.mem_append_right _ ?_⟩
    exact List.mem_flatMap.mpr ⟨m.decl, hdecl, List.mem_append_left _ hname⟩

theorem Describes.methodsOf_eq_nil {p : Program} {decls : List TypeDecl} (h : p.Describes decls)
    {id : TypeId} (hnone : p.type? id = none) : p.methodsOf id = [] := by
  refine List.eq_nil_iff_forall_not_mem.mpr fun m hm => ?_
  obtain ⟨hmem, rfl⟩ := mem_methodsOf.mp hm
  obtain ⟨t, ht, hid, _⟩ := h.exists_owner hmem
  exact type?_eq_none_iff.mp hnone t ht hid

/-- The number of a method leads to it. -/
theorem Tables.getElem?_method {p : Program} (tables : p.Tables) {m : Method}
    (hm : m ∈ p.methods) : p.methods[m.id]? = some m := by
  obtain ⟨i, hi, rfl⟩ := List.getElem_of_mem hm
  have hid : (p.methods.map (·.id))[i]? = some i := by
    rw [tables.methodIds, List.getElem?_range hi]
  rw [List.getElem?_map, List.getElem?_eq_getElem hi] at hid
  have hid : p.methods[i].id = i := Option.some.inj hid
  rw [hid, List.getElem?_eq_getElem hi]

end Program

/-! ## Numbers in another program -/

/-- A type gets the number of its name in another program, a method that
of the method in its place. -/
def Renaming.between (p p' : Program) : Renaming where
  type id := (p'.graph.lookup (p.graph.name id)).getD 0
  method id :=
    match p.methods[id]? with
    | some m =>
      let owner := (p'.graph.lookup (p.graph.name m.owner)).getD 0
      let place := (p.methodsOf m.owner).findIdx (·.id = id)
      (((p'.methodsOf owner)[place]?).map (·.id)).getD 0
    | none => 0

namespace Program

/-- Is the type one of these declarations? -/
def isOneOf (p : Program) (decls : List TypeDecl) (id : TypeId) : Bool :=
  p.graph.name id ∈ decls.map (·.id)

/-- The second program has the declarations of the first, in any order,
and further ones, which the first does not mention. -/
structure Enlarges (p p' : Program) (decls decls' extra : List TypeDecl) : Prop where
  describes : p.Describes decls
  describes' : p'.Describes decls'
  perm : decls'.Perm (decls ++ extra)
  unmentioned : ∀ decl ∈ decls, ∀ new ∈ extra, new.id ∉ decl.mentioned

namespace Enlarges

variable {p p' : Program} {decls decls' extra : List TypeDecl} {id : TypeId} {name : String}
  {decl : TypeDecl}

/-! ### Types -/

theorem mem_decls' (h : p.Enlarges p' decls decls' extra) :
    decl ∈ decls' ↔ decl ∈ decls ∨ decl ∈ extra := by
  rw [h.perm.mem_iff, List.mem_append]

theorem lookup_name (h : p.Enlarges p' decls decls' extra) (hid : id < p.graph.size) :
    p.graph.lookup (p.graph.name id) = some id :=
  (TypeGraph.lookup_eq_some_iff h.describes.nodup).mpr (TypeGraph.getElem?_names hid)

/-- No new declaration has the name of an old node. -/
theorem not_mem_extra (h : p.Enlarges p' decls decls' extra) (hid : id < p.graph.size) :
    p.graph.name id ∉ extra.map (·.id) := by
  intro hmem
  obtain ⟨new, hnew, heq⟩ := List.mem_map.mp hmem
  have hnamed := List.mem_of_getElem? (TypeGraph.getElem?_names hid)
  obtain ⟨decl, hdecl, hname⟩ := (h.describes.mem_names _).mp hnamed
  refine h.unmentioned decl hdecl new hnew ?_
  rw [heq]
  exact List.mem_append_left _ (List.mem_append_left _ hname)

theorem lookup (h : p.Enlarges p' decls decls' extra) (hname : p.graph.lookup name = some id) :
    p'.graph.lookup name = some ((Renaming.between p p').type id) := by
  obtain ⟨decl, hdecl, hmem⟩ := (h.describes.mem_names name).mp
    (List.mem_of_getElem? (TypeGraph.getElem?_of_lookup hname))
  obtain ⟨other, hother⟩ := h.describes'.exists_lookup (h.mem_decls'.mpr (.inl hdecl)) hmem
  simp [Renaming.between, TypeGraph.name_of_lookup hname, hother]

theorem lookup_type (h : p.Enlarges p' decls decls' extra) (hid : id < p.graph.size) :
    p'.graph.lookup (p.graph.name id) = some ((Renaming.between p p').type id) :=
  h.lookup (h.lookup_name hid)

theorem name_type (h : p.Enlarges p' decls decls' extra) (hid : id < p.graph.size) :
    p'.graph.name ((Renaming.between p p').type id) = p.graph.name id :=
  TypeGraph.name_of_lookup (h.lookup_type hid)

theorem type_injective (h : p.Enlarges p' decls decls' extra) {a b : TypeId}
    (ha : a < p.graph.size) (hb : b < p.graph.size)
    (heq : (Renaming.between p p').type a = (Renaming.between p p').type b) : a = b := by
  have hname : p.graph.name a = p.graph.name b := by
    rw [← h.name_type ha, heq, h.name_type hb]
  exact Option.some.inj ((h.lookup_name ha).symm.trans (hname ▸ h.lookup_name hb))

/-- A declared type has the number of its name. -/
theorem type_eq (h : p.Enlarges p' decls decls' extra) {t t' : DeclaredType} (ht : t ∈ p.types)
    (ht' : t' ∈ p'.types) (hdecl : t'.decl = t.decl) :
    (Renaming.between p p').type t.id = t'.id := by
  have hlookup := h.lookup (h.describes.lookup_type t ht)
  rw [← hdecl, h.describes'.lookup_type t' ht'] at hlookup
  exact (Option.some.inj hlookup).symm

/-- What is declared in one program is declared in the other. -/
theorem type? (h : p.Enlarges p' decls decls' extra) (hid : id < p.graph.size) :
    p'.type? ((Renaming.between p p').type id) = p.type? id := by
  refine Option.ext fun decl => ?_
  rw [type?_eq_some_iff h.describes'.nodup_ids, type?_eq_some_iff h.describes.nodup_ids]
  constructor
  · intro ht'
    have hname : decl.id = p.graph.name id :=
      (h.describes'.name_type ht').symm.trans (h.name_type hid)
    rcases h.mem_decls'.mp (h.describes'.mem_types.mp ⟨_, ht', rfl⟩) with hdecl | hdecl
    · obtain ⟨t, ht, rfl⟩ := h.describes.mem_types.mpr hdecl
      have hsame : t.id = id := h.type_injective (h.describes.type_lt ht) hid (h.type_eq ht ht' rfl)
      rw [← hsame]
      exact ht
    · exact absurd (hname ▸ List.mem_map_of_mem hdecl) (h.not_mem_extra hid)
  · intro ht
    have hdecl : decl ∈ decls := h.describes.mem_types.mp ⟨_, ht, rfl⟩
    obtain ⟨t', ht', hsame⟩ := h.describes'.mem_types.mpr (h.mem_decls'.mpr (.inl hdecl))
    have hnumber : (Renaming.between p p').type id = t'.id := h.type_eq ht ht' hsame
    rw [hnumber, ← hsame]
    exact ht'

theorem nodeOf (h : p.Enlarges p' decls decls' extra) (hdecl : decl ∈ decls) :
    p'.graph.nodeOf decl = (p.graph.nodeOf decl).rename (Renaming.between p p') := by
  have hlookup : ∀ name ∈ decl.named, p'.graph.lookup name
      = (p.graph.lookup name).map (Renaming.between p p').type := by
    intro name hname
    obtain ⟨id, hid⟩ := h.describes.exists_lookup hdecl hname
    rw [hid, h.lookup hid]
    rfl
  have hsuper : decl.superclass.bind p'.graph.lookup
      = (decl.superclass.bind p.graph.lookup).map (Renaming.between p p').type := by
    cases hname : decl.superclass with
    | none => rfl
    | some name => exact hlookup name (by simp [TypeDecl.named, hname])
  have hinter : decl.interfaces.filterMap p'.graph.lookup
      = (decl.interfaces.filterMap p.graph.lookup).map (Renaming.between p p').type := by
    rw [List.map_filterMap]
    exact List.filterMap_congr fun name hname => hlookup name (by simp [TypeDecl.named, hname])
  simp only [TypeGraph.nodeOf, TypeNode.rename, hsuper, hinter]

/-- Nodes are the same. One that is bare stays bare: its name is not that
of a new declaration. -/
theorem node (h : p.Enlarges p' decls decls' extra) {node : TypeNode}
    (hnode : p.graph.nodes[id]? = some node) :
    p'.graph.nodes[(Renaming.between p p').type id]?
      = some (node.rename (Renaming.between p p')) := by
  have hid : id < p.graph.size := (List.getElem?_eq_some_iff.mp hnode).1
  have hlt := TypeGraph.lookup_lt (h.lookup_type hid)
  cases htype : p.type? id with
  | some decl =>
    have ht := (type?_eq_some_iff h.describes.nodup_ids).mp htype
    have ht' := (type?_eq_some_iff h.describes'.nodup_ids).mp ((h.type? hid).trans htype)
    have hold := h.describes.node_type _ ht
    rw [h.describes'.node_type _ ht', h.nodeOf (h.describes.mem_types.mp ⟨_, ht, rfl⟩)]
    rw [hnode] at hold
    rw [Option.some.inj hold]
  | none =>
    have hnode' := List.getElem?_eq_getElem (show _ < p'.graph.nodes.length from hlt)
    have hbare := h.describes.node_bare id node hnode htype
    have hbare' := h.describes'.node_bare _ _ hnode' ((h.type? hid).trans htype)
    have hname := h.name_type hid
    simp only [TypeGraph.name, hnode, hnode'] at hname
    rw [hnode', hbare', hname, hbare]
    rfl

theorem graph (h : p.Enlarges p' decls decls' extra) :
    p.graph.Embeds (Renaming.between p p') p'.graph where
  closed := fun _ _ => h.describes.supertypes_lt
  injective := fun _ ha _ hb => h.type_injective ha hb
  node := fun _ _ => h.node
  lookup := fun _ _ => h.lookup
  fresh := by
    intro name other hnone hother id hid heq
    rw [← TypeGraph.name_of_lookup hother, ← heq, h.name_type hid, h.lookup_name hid] at hnone
    cases hnone

/-! ### Methods -/

theorem map_decl_methodsOf (h : p.Enlarges p' decls decls' extra) (hid : id < p.graph.size) :
    (p'.methodsOf ((Renaming.between p p').type id)).map (·.decl)
      = (p.methodsOf id).map (·.decl) := by
  cases htype : p.type? id with
  | none =>
    rw [h.describes.methodsOf_eq_nil htype,
      h.describes'.methodsOf_eq_nil ((h.type? hid).trans htype)]
  | some decl =>
    have ht := (type?_eq_some_iff h.describes.nodup_ids).mp htype
    have ht' := (type?_eq_some_iff h.describes'.nodup_ids).mp ((h.type? hid).trans htype)
    exact (h.describes'.map_decl_methodsOf ht').trans (h.describes.map_decl_methodsOf ht).symm

/-- The number of a method is that of the method in its place. -/
theorem method_eq (h : p.Enlarges p' decls decls' extra) {i : Nat} {m m' : Method}
    (hm : (p.methodsOf id)[i]? = some m)
    (hm' : (p'.methodsOf ((Renaming.between p p').type id))[i]? = some m') :
    (Renaming.between p p').method m.id = m'.id := by
  obtain ⟨hmem, howner⟩ := mem_methodsOf.mp (List.mem_of_getElem? hm)
  have hplace : (p.methodsOf id).findIdx (·.id = m.id) = i := by
    obtain ⟨hi, hget⟩ := List.getElem?_eq_some_iff.mp hm
    refine (List.findIdx_eq hi).mpr ⟨by simp [hget], fun j hji => ?_⟩
    have hlt := List.pairwise_iff_getElem.mp (h.describes.tables.methodsOf_increasing id) j i
      (Nat.lt_trans hji hi) hi hji
    rw [hget] at hlt
    exact decide_eq_false (Nat.ne_of_lt hlt)
  show (match p.methods[m.id]? with | some m => _ | none => _) = _
  rw [h.describes.tables.getElem?_method hmem]
  show (((p'.methodsOf ((Renaming.between p p').type m.owner))[(p.methodsOf m.owner).findIdx
    (·.id = m.id)]?).map (·.id)).getD 0 = _
  rw [howner, hplace, hm']
  rfl

/-- The methods of a type are in the same places. -/
theorem methodsOf (h : p.Enlarges p' decls decls' extra) (hid : id < p.graph.size) :
    p'.methodsOf ((Renaming.between p p').type id)
      = (p.methodsOf id).map (·.rename (Renaming.between p p')) := by
  refine List.ext_getElem? fun i => ?_
  have hdecl := congrArg (·[i]?) (h.map_decl_methodsOf hid)
  simp only [List.getElem?_map] at hdecl ⊢
  cases hm : (p.methodsOf id)[i]? with
  | none =>
    rw [hm] at hdecl
    exact Option.map_eq_none_iff.mp hdecl
  | some m =>
    rw [hm] at hdecl
    obtain ⟨m', hm', hdecl⟩ := Option.map_eq_some_iff.mp hdecl
    have hdecl : m'.decl = m.decl := hdecl
    have howner := (mem_methodsOf.mp (List.mem_of_getElem? hm)).2
    have howner' := (mem_methodsOf.mp (List.mem_of_getElem? hm')).2
    rw [hm', Option.map_some, Method.rename, h.method_eq hm hm', howner, ← howner', ← hdecl]

theorem rename_mem (h : p.Enlarges p' decls decls' extra) {m : Method} (hm : m ∈ p.methods) :
    m.rename (Renaming.between p p') ∈ p'.methods := by
  have hrenamed : m.rename (Renaming.between p p')
      ∈ p'.methodsOf ((Renaming.between p p').type m.owner) := by
    rw [h.methodsOf (h.describes.tables.ownerKnown m hm)]
    exact List.mem_map_of_mem (mem_methodsOf.mpr ⟨hm, rfl⟩)
  exact (mem_methodsOf.mp hrenamed).1

/-- Different methods stay different: those of one type are in different
places, and different types stay different. -/
theorem method_injective (h : p.Enlarges p' decls decls' extra) {m n : Method}
    (hm : m ∈ p.methods) (hn : n ∈ p.methods)
    (heq : (Renaming.between p p').method m.id = (Renaming.between p p').method n.id) : m = n := by
  have hknown := h.describes.tables.ownerKnown
  have hsame : m.rename (Renaming.between p p') = n.rename (Renaming.between p p') :=
    h.describes'.tables.method_ext (h.rename_mem hm) (h.rename_mem hn) heq
  have howner : m.owner = n.owner :=
    h.type_injective (hknown m hm) (hknown n hn) (congrArg Method.owner hsame)
  have hnodup : ((p.methodsOf m.owner).map fun a => (Renaming.between p p').method a.id).Nodup := by
    have hincreasing := h.describes'.tables.methodsOf_increasing
      ((Renaming.between p p').type m.owner)
    rw [h.methodsOf (hknown m hm)] at hincreasing
    exact List.pairwise_map.mpr ((List.pairwise_map.mp hincreasing).imp Nat.ne_of_lt)
  exact List.inj_on_of_nodup_map hnodup (mem_methodsOf.mpr ⟨hm, rfl⟩)
    (mem_methodsOf.mpr ⟨hn, howner.symm⟩) heq

theorem embeds (h : p.Enlarges p' decls decls' extra) :
    p.Embeds (Renaming.between p p') p' where
  graph := h.graph
  type_lt := fun _ => h.describes.type_lt
  owner_lt := h.describes.tables.ownerKnown
  type? := fun _ => h.type?
  methodsOf := fun _ => h.methodsOf
  injective := fun _ hm _ hn heq => congrArg Method.id (h.method_injective hm hn heq)

/-! ### All declarations -/

theorem isOneOf_type (h : p.Enlarges p' decls decls' extra) (hid : id < p.graph.size) :
    p'.isOneOf extra ((Renaming.between p p').type id) = false := by
  rw [isOneOf, h.name_type hid]
  exact decide_eq_false (h.not_mem_extra hid)

theorem isOneOf_of_mem (h : p.Enlarges p' decls decls' extra) {t : DeclaredType}
    (ht : t ∈ p'.types) (hdecl : t.decl ∈ extra) : p'.isOneOf extra t.id = true := by
  rw [isOneOf, h.describes'.name_type ht]
  exact decide_eq_true (List.mem_map_of_mem hdecl)

/-- A type of the larger program is new, or it is one of the smaller
program. -/
theorem cases_type (h : p.Enlarges p' decls decls' extra) {t' : DeclaredType}
    (ht' : t' ∈ p'.types) :
    t'.decl ∈ extra ∨ ∃ t ∈ p.types, t.rename (Renaming.between p p') = t' := by
  rcases h.mem_decls'.mp (h.describes'.mem_types.mp ⟨t', ht', rfl⟩) with hdecl | hdecl
  · obtain ⟨t, ht, hsame⟩ := h.describes.mem_types.mpr hdecl
    refine .inr ⟨t, ht, ?_⟩
    rw [DeclaredType.rename, h.type_eq ht ht' hsame.symm, hsame]
  · exact .inl hdecl

theorem types (h : p.Enlarges p' decls decls' extra) :
    p'.types.Perm (p.types.map (·.rename (Renaming.between p p'))
      ++ p'.types.filter (p'.isOneOf extra ·.id)) := by
  have hlt : ∀ t ∈ p.types, t.id < p.graph.size := fun _ => h.describes.type_lt
  have hnodup' : p'.types.Nodup := .of_map _ h.describes'.nodup_ids
  refine (List.perm_ext_iff_of_nodup hnodup' (List.nodup_append.mpr ⟨?_, hnodup'.filter _, ?_⟩)).mpr
    fun t' => ?_
  · refine List.Nodup.map_on (fun a ha b hb heq => ?_) (.of_map _ h.describes.nodup_ids)
    have hid := h.type_injective (hlt a ha) (hlt b hb) (congrArg DeclaredType.id heq)
    exact List.inj_on_of_nodup_map h.describes.nodup_ids ha hb hid
  · intro _ hold t' hnew
    obtain ⟨t, ht, rfl⟩ := List.mem_map.mp hold
    rintro rfl
    have hone := (List.mem_filter.mp hnew).2
    cases (h.isOneOf_type (hlt t ht)).symm.trans hone
  · rw [List.mem_append, List.mem_map, List.mem_filter]
    constructor
    · intro ht'
      rcases h.cases_type ht' with hdecl | hold
      · exact .inr ⟨ht', h.isOneOf_of_mem ht' hdecl⟩
      · exact .inl hold
    · rintro (⟨t, ht, rfl⟩ | ⟨ht', _⟩)
      · obtain ⟨t', ht', hsame⟩ := h.describes'.mem_types.mpr
          (h.mem_decls'.mpr (.inl (h.describes.mem_types.mp ⟨t, ht, rfl⟩)))
        rw [DeclaredType.rename, h.type_eq ht ht' hsame, ← hsame]
        exact ht'
      · exact ht'

theorem methods (h : p.Enlarges p' decls decls' extra) :
    p'.methods.Perm (p.methods.map (·.rename (Renaming.between p p'))
      ++ p'.methods.filter (p'.isOneOf extra ·.owner)) := by
  have hknown := h.describes.tables.ownerKnown
  have hnodup : ∀ {q : Program}, q.Tables → q.methods.Nodup := by
    intro q tables
    exact .of_map (·.id) (tables.methodIds ▸ List.nodup_range)
  have hnodup' := hnodup h.describes'.tables
  refine (List.perm_ext_iff_of_nodup hnodup' (List.nodup_append.mpr ⟨?_, hnodup'.filter _, ?_⟩)).mpr
    fun m' => ?_
  · refine List.Nodup.map_on (fun a ha b hb heq => ?_) (hnodup h.describes.tables)
    exact h.method_injective ha hb (congrArg Method.id heq)
  · intro _ hold m' hnew
    obtain ⟨m, hm, rfl⟩ := List.mem_map.mp hold
    rintro rfl
    have hone := (List.mem_filter.mp hnew).2
    cases (h.isOneOf_type (hknown m hm)).symm.trans hone
  · rw [List.mem_append, List.mem_map, List.mem_filter]
    constructor
    · intro hm'
      obtain ⟨t', ht', howner, _⟩ := h.describes'.exists_owner hm'
      rcases h.cases_type ht' with hdecl | ⟨t, ht, rfl⟩
      · exact .inr ⟨hm', howner ▸ h.isOneOf_of_mem ht' hdecl⟩
      · have hmem : m' ∈ p'.methodsOf ((Renaming.between p p').type t.id) :=
          mem_methodsOf.mpr ⟨hm', howner.symm⟩
        rw [h.methodsOf (h.describes.type_lt ht)] at hmem
        obtain ⟨m, hm, rfl⟩ := List.mem_map.mp hmem
        exact .inl ⟨m, (mem_methodsOf.mp hm).1, rfl⟩
    · rintro (⟨m, hm, rfl⟩ | ⟨hm', _⟩)
      · exact h.rename_mem hm
      · exact hm'

/-- A name that is mentioned is not that of a new declaration. -/
theorem quiet (h : p.Enlarges p' decls decls' extra) (hname : p.Mentions name)
    (hnone : p.graph.lookup name = none) (hother : p'.graph.lookup name = some id) :
    p'.type? id = none ∧ p'.graph.kind id = none ∧ p'.methodsOf id = [] := by
  have htype : p'.type? id = none := by
    refine type?_eq_none_iff.mpr fun t' ht' hid => ?_
    have hdecl : t'.decl.id = name := by
      rw [← h.describes'.name_type ht', hid, TypeGraph.name_of_lookup hother]
    rcases h.mem_decls'.mp (h.describes'.mem_types.mp ⟨t', ht', rfl⟩) with hold | hnew
    · obtain ⟨known, hknown⟩ := h.describes.exists_lookup hold List.mem_cons_self
      rw [hdecl, hnone] at hknown
      cases hknown
    · obtain ⟨decl, hmem, hmentioned⟩ := h.describes.exists_mentioned hname
      exact h.unmentioned decl hmem _ hnew (hdecl ▸ hmentioned)
  exact ⟨htype, (h.describes'.of_type?_eq_none htype).1, h.describes'.methodsOf_eq_nil htype⟩

/-- **The smaller program is found within the larger one.** -/
theorem extends_between (h : p.Enlarges p' decls decls' extra) :
    p.Extends (Renaming.between p p') p' (p'.types.filter (p'.isOneOf extra ·.id))
      (p'.methods.filter (p'.isOneOf extra ·.owner)) where
  embeds := h.embeds
  tables := h.describes.tables
  tables' := h.describes'.tables
  nodup := h.describes.nodup_ids
  nodup' := h.describes'.nodup_ids
  types := h.types
  methods := h.methods
  quiet := fun _ hname hnone _ => h.quiet hname hnone

end Enlarges

end Program

end ApiStubs
