/-
ApiStubs.Proofs.InheritanceTheorems — which comment a method inherits.

A method inherits from the nearest method that it overrides and that has
something to say. `Offers` names the methods that come into question, by
the edges of the hierarchy alone. The search for one lists all overridden
methods, type by type, in the order in which a walk comes to the types
(`pairwise_overridden`), and takes the first that has a comment. So what
is true of the order of the walk is true of the choice
(`before_of_offers`): no other method in question is nearer, and of the
direct supertypes the superclass comes before the interfaces, and these
come in the order of their declaration (`inherits_from_nearest`).
-/
import ApiStubs.Proofs.ReachabilityTheorems

namespace ApiStubs.Program

variable {p : Program} {m other rival : Method} {doc rivalDoc : DocComment}

/-- Could `m` inherit this comment from `other`: a method of another type
that can be reached, which `m` overrides and which has a comment? -/
structure Offers (p : Program) (m other : Method) (doc : DocComment) : Prop where
  declared : other ∈ p.methods
  apart : other.owner ≠ m.owner
  reachable : Relation.ReflTransGen p.graph.Extends m.owner other.owner
  overridden : m.decl.overrides other.decl = true
  comment : other.decl.doc = some doc
  not_empty : doc.isEmpty = false

theorem Offers.leads (h : p.Offers m other doc) : p.graph.Leads m.owner other.owner :=
  (TypeGraph.reachable_iff.mp h.reachable).resolve_left h.apart.symm

/-! ## The overridden methods -/

theorem mem_overridden : other ∈ p.overridden m ↔
    other ∈ p.methods ∧ other.owner ∈ p.graph.ancestors m.owner ∧
      m.decl.overrides other.decl = true := by
  simp only [overridden, List.mem_filter, List.mem_flatMap, mem_methodsOf]
  constructor
  · rintro ⟨⟨t, ht, hother, rfl⟩, hover⟩
    exact ⟨hother, ht, hover⟩
  · rintro ⟨hother, ht, hover⟩
    exact ⟨⟨other.owner, ht, hother, rfl⟩, hover⟩

theorem documented?_eq_some_iff :
    documented? other = some doc ↔ other.decl.doc = some doc ∧ doc.isEmpty = false := by
  simp [documented?, Option.filter_eq_some_iff]

theorem offers_iff :
    p.Offers m other doc ↔ other ∈ p.overridden m ∧ documented? other = some doc := by
  rw [mem_overridden, documented?_eq_some_iff, TypeGraph.mem_ancestors_iff]
  constructor
  · intro h
    exact ⟨⟨h.declared, ⟨h.apart, h.leads⟩, h.overridden⟩, h.comment, h.not_empty⟩
  · rintro ⟨⟨hdeclared, ⟨hapart, hlead⟩, hover⟩, hcomment, hempty⟩
    exact ⟨hdeclared, hapart, TypeGraph.reachable_iff.mpr (.inr hlead), hover, hcomment, hempty⟩

/-- The overridden methods are listed type by type. -/
theorem pairwise_overridden {R : TypeId → TypeId → Prop}
    (h : (p.graph.ancestors m.owner).Pairwise R) :
    (p.overridden m).Pairwise fun x y => x.owner = y.owner ∨ R x.owner y.owner := by
  refine List.Pairwise.filter _ (List.pairwise_flatMap.mpr ⟨fun t _ => ?_, ?_⟩)
  · refine List.pairwise_of_forall_mem_list fun x hx y hy => .inl ?_
    rw [(mem_methodsOf.mp hx).2, (mem_methodsOf.mp hy).2]
  · refine h.imp fun {t u} htu x hx y hy => .inr ?_
    rwa [(mem_methodsOf.mp hx).2, (mem_methodsOf.mp hy).2]

/-! ## The choice -/

theorem inheritedDoc_eq_none_iff :
    p.inheritedDoc m = none ↔ ∀ other doc, ¬ p.Offers m other doc := by
  rw [inheritedDoc, List.findSome?_eq_none_iff]
  constructor
  · intro h other doc hoffers
    obtain ⟨hmem, hdoc⟩ := offers_iff.mp hoffers
    simpa [hdoc] using h other hmem
  · intro h other hmem
    cases hdoc : documented? other with
    | none => rfl
    | some doc => exact absurd (offers_iff.mpr ⟨hmem, hdoc⟩) (h other doc)

/-- What is chosen is in question, and it stands before everything else
that is. -/
theorem split_of_inheritedDoc (h : p.inheritedDoc m = some (other, doc)) :
    p.Offers m other doc ∧ ∃ before after, p.overridden m = before ++ other :: after ∧
      ∀ rival rivalDoc, p.Offers m rival rivalDoc → rival = other ∨ rival ∈ after := by
  obtain ⟨before, chosen, after, hsplit, hchosen, hbefore⟩ := List.findSome?_eq_some_iff.mp h
  obtain ⟨found, hfound, heq⟩ := Option.map_eq_some_iff.mp hchosen
  obtain ⟨rfl, rfl⟩ := Prod.mk.inj heq
  have hmem : chosen ∈ p.overridden m := hsplit ▸ List.mem_append_cons_self
  refine ⟨offers_iff.mpr ⟨hmem, hfound⟩, before, after, hsplit, fun rival rivalDoc hrival => ?_⟩
  obtain ⟨hrivalMem, hrivalDoc⟩ := offers_iff.mp hrival
  rw [hsplit] at hrivalMem
  rcases List.mem_append.mp hrivalMem with hskipped | hrest
  · simpa [hrivalDoc] using hbefore rival hskipped
  · exact List.mem_cons.mp hrest

/-- The type of the chosen method comes before the others in question, in
whatever sense the walk goes from type to type. -/
theorem before_of_offers {R : TypeId → TypeId → Prop}
    (hR : (p.graph.ancestors m.owner).Pairwise R) (h : p.inheritedDoc m = some (other, doc))
    (hrival : p.Offers m rival rivalDoc) :
    other.owner = rival.owner ∨ R other.owner rival.owner := by
  obtain ⟨-, before, after, hsplit, hlater⟩ := split_of_inheritedDoc h
  rcases hlater rival rivalDoc hrival with rfl | hmem
  · exact .inl rfl
  · have hpair := pairwise_overridden hR
    rw [hsplit] at hpair
    exact List.rel_of_pairwise_cons (List.pairwise_append.mp hpair).2.1 hmem

theorem Offers.exists_distance (h : p.Offers m other doc) :
    ∃ n, p.graph.IsDistance m.owner other.owner n := by
  obtain ⟨k, hk⟩ := h.leads.exists_steps
  exact hk.exists_distance

theorem distance_le_of_offers (h : p.inheritedDoc m = some (other, doc)) {n k : Nat}
    (hn : p.graph.IsDistance m.owner other.owner n) (hrival : p.Offers m rival rivalDoc)
    (hk : p.graph.IsDistance m.owner rival.owner k) : n ≤ k := by
  rcases before_of_offers (TypeGraph.ancestors_nearest_first _ _) h hrival with heq | hbefore
  · exact hn.2 k (heq ▸ hk.1)
  · obtain ⟨j, hj, hsteps⟩ := hbefore k hk.1
    exact Nat.le_trans (hn.2 j hsteps) hj

theorem idxOf_le_of_offers (h : p.inheritedDoc m = some (other, doc))
    (hrival : p.Offers m rival rivalDoc)
    (hdirect : rival.owner ∈ p.graph.supertypes m.owner) :
    other.owner ∈ p.graph.supertypes m.owner ∧
      (p.graph.supertypes m.owner).idxOf other.owner
        ≤ (p.graph.supertypes m.owner).idxOf rival.owner := by
  rcases before_of_offers (TypeGraph.visit_in_queue_order _ _) h hrival with heq | hbefore
  · rw [heq]
    exact ⟨hdirect, Nat.le_refl _⟩
  · exact hbefore hdirect

theorem owner_eq_superclass (h : p.inheritedDoc m = some (other, doc))
    (hrival : p.Offers m rival rivalDoc)
    (hsuper : p.graph.superclass m.owner = some rival.owner) : other.owner = rival.owner := by
  obtain ⟨-, hle⟩ :=
    idxOf_le_of_offers h hrival (TypeGraph.mem_supertypes_of_superclass hsuper)
  obtain ⟨node, hnode, hsuper⟩ := Option.bind_eq_some_iff.mp hsuper
  have hlist : p.graph.supertypes m.owner = rival.owner :: node.interfaces := by
    simp [TypeGraph.supertypes, hnode, hsuper]
  rw [hlist] at hle
  exact TypeGraph.eq_of_idxOf_le_head hle

theorem interface_in_order (h : p.inheritedDoc m = some (other, doc)) {node : TypeNode}
    (hnode : p.graph.nodes[m.owner]? = some node) (hrival : p.Offers m rival rivalDoc)
    (hinterface : rival.owner ∈ node.interfaces) :
    node.superclass = some other.owner ∨ other.owner ∈ node.interfaces ∧
      node.interfaces.idxOf other.owner ≤ node.interfaces.idxOf rival.owner := by
  have hlist : p.graph.supertypes m.owner = node.superclass.toList ++ node.interfaces := by
    simp [TypeGraph.supertypes, hnode]
  obtain ⟨hmem, hle⟩ :=
    idxOf_le_of_offers h hrival (hlist ▸ List.mem_append_right _ hinterface)
  rw [hlist] at hmem hle
  cases hsuper : node.superclass with
  | none => exact .inr (by simpa [hsuper] using And.intro hmem hle)
  | some superclass =>
    by_cases hother : superclass = other.owner
    · exact .inl (congrArg some hother)
    · rw [hsuper, Option.toList_some, List.singleton_append] at hmem hle
      -- The superclass does not stand after an interface.
      have hrival : superclass ≠ rival.owner := by
        rintro rfl
        exact hother (TypeGraph.eq_of_idxOf_le_head hle).symm
      exact .inr ⟨(List.mem_cons.mp hmem).resolve_left (Ne.symm hother),
        (TypeGraph.idxOf_cons_le_iff hother hrival).mp hle⟩

/-- **A method inherits from the nearest one.** If no comment is inherited,
no method offers one. Otherwise it is offered by a method of another type,
and no method nearer to `m` offers one; a direct superclass that offers
one is taken before all interfaces, and a direct interface before those
that are declared after it. -/
theorem inherits_from_nearest (p : Program) (m : Method) :
    match p.inheritedDoc m with
    | none => ∀ other doc, ¬ p.Offers m other doc
    | some (other, doc) =>
      p.Offers m other doc ∧ other ≠ m ∧
      (∃ n, p.graph.IsDistance m.owner other.owner n ∧
        ∀ rival rivalDoc, p.Offers m rival rivalDoc →
          ∃ k, p.graph.IsDistance m.owner rival.owner k ∧ n ≤ k) ∧
      (∀ rival rivalDoc, p.Offers m rival rivalDoc →
        p.graph.superclass m.owner = some rival.owner → other.owner = rival.owner) ∧
      ∀ node, p.graph.nodes[m.owner]? = some node →
        ∀ rival rivalDoc, p.Offers m rival rivalDoc → rival.owner ∈ node.interfaces →
          node.superclass = some other.owner ∨ other.owner ∈ node.interfaces ∧
            node.interfaces.idxOf other.owner ≤ node.interfaces.idxOf rival.owner := by
  split
  · rename_i hnone
    exact inheritedDoc_eq_none_iff.mp hnone
  · rename_i other doc hsome
    obtain ⟨hoffers, -⟩ := split_of_inheritedDoc hsome
    obtain ⟨n, hn⟩ := hoffers.exists_distance
    refine ⟨hoffers, ?_, ⟨n, hn, fun rival rivalDoc hrival => ?_⟩,
      fun _ _ => owner_eq_superclass hsome, fun _ hnode _ _ => interface_in_order hsome hnode⟩
    · rintro rfl
      exact hoffers.apart rfl
    · obtain ⟨k, hk⟩ := hrival.exists_distance
      exact ⟨k, hk, distance_le_of_offers hsome hn hrival hk⟩

end ApiStubs.Program
