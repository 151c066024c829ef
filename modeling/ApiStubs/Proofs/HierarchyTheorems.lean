/-
ApiStubs.Proofs.HierarchyTheorems — heights and the subtype relation.

The order of a stub goes by heights, not by the subtype relation. The two
agree where there is no cycle: what lies strictly below a type is higher
(`CycleFree.height_lt`), since a longest walk from the supertype becomes a
longer one from the subtype. A subtype is found by a search that marks
what it has seen; it finds what can be reached along supertype edges and
nothing else (`search_eq_true_iff`), and so does the walk that lists all
proper supertypes (`mem_ancestors_iff`). That both of them leave nothing
out is one argument: what they have passed by the time they stop is closed
under supertypes.
-/
import ApiStubs.Proofs.ProgramTheorems
import ApiStubs.TypeGraph.Height

namespace ApiStubs.TypeGraph

variable {g : TypeGraph} {a b : TypeId}

/-! ## Strict subtypes -/

/-- Is the first type a subtype of the second, and another type? -/
def Below (g : TypeGraph) (a b : TypeId) : Prop :=
  a ≠ b ∧ g.isSubtype a b = true

/-- No type leads back to itself. -/
def Acyclic (g : TypeGraph) : Prop :=
  ∀ id, ¬ g.Leads id id

/-- What a walk visits is in the queue, or the queue leads to it. -/
theorem leads_of_mem_visit {seen queue : List TypeId} (h : b ∈ g.visit seen queue) :
    ∃ q ∈ queue, q = b ∨ g.Leads q b := by
  fun_induction visit g seen queue with
  | case1 => cases h
  | case2 seen next queue hseen ih =>
    obtain ⟨q, hq, hb⟩ := ih h
    exact ⟨q, List.mem_cons_of_mem _ hq, hb⟩
  | case3 seen next queue hseen ih =>
    rcases List.mem_cons.mp h with rfl | h
    · exact ⟨b, List.mem_cons_self, .inl rfl⟩
    · obtain ⟨q, hq, hb⟩ := ih h
      rcases List.mem_append.mp hq with hq | hq
      · exact ⟨q, List.mem_cons_of_mem _ hq, hb⟩
      · -- A supertype of `next` was put into the queue, so `next` leads to it.
        refine ⟨next, List.mem_cons_self, .inr ?_⟩
        rcases hb with rfl | hb
        · exact .single hq
        · exact .trans (.single hq) hb

/-- Of the queue, a walk leaves out only what it has seen. -/
theorem mem_visit_of_mem_queue {seen queue : List TypeId} (h : b ∈ queue) :
    b ∈ seen ∨ b ∈ g.visit seen queue := by
  fun_induction visit g seen queue with
  | case1 => cases h
  | case2 seen next queue hseen ih =>
    rcases List.mem_cons.mp h with rfl | h
    · exact .inl hseen
    · exact ih h
  | case3 seen next queue hseen ih =>
    rcases List.mem_cons.mp h with rfl | h
    · exact .inr List.mem_cons_self
    · rcases ih (List.mem_append_left _ h) with hb | hb
      · rcases List.mem_cons.mp hb with rfl | hb
        · exact .inr List.mem_cons_self
        · exact .inl hb
      · exact .inr (List.mem_cons_of_mem _ hb)

/-- The same of the supertypes of what it visits. -/
theorem mem_visit_of_mem_supertypes {seen queue : List TypeId} (ha : a ∈ g.visit seen queue)
    (hb : b ∈ g.supertypes a) : b ∈ seen ∨ b ∈ g.visit seen queue := by
  fun_induction visit g seen queue with
  | case1 => cases ha
  | case2 seen next queue hseen ih => exact ih ha
  | case3 seen next queue hseen ih =>
    have hlater : b ∈ next :: seen ∨ b ∈ g.visit (next :: seen) (queue ++ g.supertypes next) := by
      rcases List.mem_cons.mp ha with rfl | ha
      · exact mem_visit_of_mem_queue (List.mem_append_right _ hb)
      · exact ih ha
    rcases hlater with hlater | hlater
    · rcases List.mem_cons.mp hlater with rfl | hseen
      · exact .inr List.mem_cons_self
      · exact .inl hseen
    · exact .inr (List.mem_cons_of_mem _ hlater)

theorem Leads.mem_ancestors (h : g.Leads a b) : b = a ∨ b ∈ g.ancestors a := by
  have hfresh : ∀ {x : TypeId}, x ∈ [a] ∨ x ∈ g.ancestors a → x = a ∨ x ∈ g.ancestors a :=
    Or.imp_left List.mem_singleton.mp
  induction h with
  | single hedge => exact hfresh (mem_visit_of_mem_queue hedge)
  | tail _ hedge ih =>
    rcases ih with rfl | hmem
    · exact hfresh (mem_visit_of_mem_queue hedge)
    · exact hfresh (mem_visit_of_mem_supertypes hmem hedge)

theorem mem_ancestors_iff : b ∈ g.ancestors a ↔ b ≠ a ∧ g.Leads a b := by
  constructor
  · intro h
    refine ⟨fun heq => not_mem_ancestors g a (heq ▸ h), ?_⟩
    obtain ⟨parent, hp, rfl | hb⟩ := leads_of_mem_visit h
    · exact .single hp
    · exact .trans (.single hp) hb
  · rintro ⟨hne, h⟩
    exact h.mem_ancestors.resolve_left hne

/-! ## Searching -/

theorem leads_of_search {sup : TypeId} {seen queue : List TypeId}
    (h : g.search sup seen queue = true) : ∃ q ∈ queue, g.Leads q sup := by
  fun_induction search g sup seen queue with
  | case1 => cases h
  | case2 seen next queue hfound => exact ⟨next, List.mem_cons_self, .single hfound⟩
  | case3 seen next queue _ ih =>
    obtain ⟨q, hq, hlead⟩ := ih h
    rcases List.mem_append.mp hq with hq | hq
    · exact ⟨q, List.mem_cons_of_mem _ hq, hlead⟩
    · have hedge := (mem_freshSupertypes.mp hq).1
      exact ⟨next, List.mem_cons_self, .trans (.single hedge) hlead⟩

/-- A search in vain has passed some nodes, among them those of its queue,
that are closed under supertypes, and none of these supertypes is the one
it looks for. Before the search ends, this holds of every marked node that
is not waiting in the queue. -/
theorem closed_of_search {sup : TypeId} {seen queue : List TypeId}
    (h : g.search sup seen queue = false)
    (hseen : ∀ x ∈ seen, x ∈ queue ∨ ∀ y ∈ g.supertypes x, y ≠ sup ∧ y ∈ seen) :
    ∃ passed : TypeId → Prop, (∀ x ∈ queue, passed x) ∧ (∀ x ∈ seen, passed x) ∧
      ∀ x, passed x → ∀ y ∈ g.supertypes x, y ≠ sup ∧ passed y := by
  fun_induction search g sup seen queue with
  | case1 seen =>
    refine ⟨(· ∈ seen), nofun, fun _ hx => hx, fun x hx => ?_⟩
    exact (hseen x hx).resolve_left List.not_mem_nil
  | case2 => cases h
  | case3 seen next queue hmissed ih =>
    have hnext : ∀ y ∈ g.supertypes next,
        y ≠ sup ∧ y ∈ g.freshSupertypes seen next ++ seen := by
      intro y hy
      refine ⟨fun heq => hmissed (heq ▸ hy), ?_⟩
      by_cases hold : y ∈ seen
      · exact List.mem_append_right _ hold
      · exact List.mem_append_left _ (mem_freshSupertypes.mpr ⟨hy, hold⟩)
    obtain ⟨passed, hqueue, hmarked, hclosed⟩ := ih h fun x hx => by
      rcases List.mem_append.mp hx with hx | hx
      · exact .inl (List.mem_append_right _ hx)
      · rcases hseen x hx with hwait | hdone
        · rcases List.mem_cons.mp hwait with rfl | hwait
          · exact .inr hnext
          · exact .inl (List.mem_append_left _ hwait)
        · exact .inr fun y hy => ⟨(hdone y hy).1, List.mem_append_right _ (hdone y hy).2⟩
    -- The node just taken need not be marked: the search never marks its start.
    refine ⟨fun x => x = next ∨ passed x, fun x hx => ?_, fun x hx => ?_, ?_⟩
    · exact (List.mem_cons.mp hx).imp_right fun hx => hqueue x (List.mem_append_left _ hx)
    · exact .inr (hmarked x (List.mem_append_right _ hx))
    · rintro x (rfl | hx) y hy
      · exact ⟨(hnext y hy).1, .inr (hmarked y (hnext y hy).2)⟩
      · exact ⟨(hclosed x hx y hy).1, .inr (hclosed x hx y hy).2⟩

/-- **A search finds what its start leads to**, and nothing else. -/
theorem search_eq_true_iff : g.search b [] [a] = true ↔ g.Leads a b := by
  constructor
  · intro h
    obtain ⟨q, hq, hlead⟩ := leads_of_search h
    rwa [List.mem_singleton.mp hq] at hlead
  · intro hlead
    by_contra hvain
    obtain ⟨passed, hstart, -, hclosed⟩ :=
      closed_of_search (Bool.eq_false_iff.mpr hvain) (fun _ hx => absurd hx List.not_mem_nil)
    have hpassed : ∀ {x : TypeId}, g.Leads a x → x ≠ b ∧ passed x := by
      intro x hx
      induction hx with
      | single hedge => exact hclosed a (hstart a List.mem_cons_self) _ hedge
      | tail _ hedge ih => exact hclosed _ ih.2 _ hedge
    exact (hpassed hlead).1 rfl

theorem isSubtype_iff : g.isSubtype a b = true ↔ a = b ∨ g.Leads a b := by
  simp [isSubtype, search_eq_true_iff]

/-- The search and the walk find the same. -/
theorem isSubtype_eq (g : TypeGraph) (a b : TypeId) :
    g.isSubtype a b = (decide (a = b) || decide (b ∈ g.ancestors a)) := by
  rw [Bool.eq_iff_iff, isSubtype_iff, Bool.or_eq_true, decide_eq_true_iff, decide_eq_true_iff,
    mem_ancestors_iff]
  grind

/-- **Strict subtypes are the types that lead there**, where there is no
cycle. -/
theorem Acyclic.below_iff (hacyclic : g.Acyclic) : g.Below a b ↔ g.Leads a b := by
  rw [Below, isSubtype_iff]
  constructor
  · rintro ⟨hne, hsub⟩
    exact hsub.resolve_left hne
  · intro h
    refine ⟨?_, .inr h⟩
    rintro rfl
    exact hacyclic a h

/-! ## Heights -/

theorem Acyclic.cycleFree (h : g.Acyclic) (id : TypeId) : g.CycleFree id :=
  fun b _ => h b

/-- **What leads to a type is higher** where no cycle is in reach. -/
theorem CycleFree.height_lt (hfree : g.CycleFree a) (h : g.Leads a b) :
    g.height b < g.height a := by
  rw [height_eq_heightFrom, height_eq_heightFrom]
  have hwalk : g.HasWalk (g.heightFrom [] b + 1) a :=
    HasWalk.of_leads h (hasWalk_heightFrom g [] b)
  exact le_heightFrom (by simp) hfree hwalk

/-- There is no cycle if some rank goes down along every edge. -/
theorem acyclic_of_rank (rank : TypeId → Nat)
    (h : ∀ id, ∀ parent ∈ g.supertypes id, rank parent < rank id) : g.Acyclic := by
  have hdown : ∀ {x y : TypeId}, g.Leads x y → rank y < rank x := by
    intro x y hxy
    induction hxy with
    | single hedge => exact h _ _ hedge
    | tail _ hedge ih => exact Nat.lt_trans (h _ _ hedge) ih
  exact fun id hcycle => Nat.lt_irrefl _ (hdown hcycle)

end ApiStubs.TypeGraph
