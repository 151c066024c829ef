/-
ApiStubs.Proofs.ReachabilityTheorems — what is asked of a hierarchy is a
question about its edges.

`Extends` reads the edges off the nodes, and mentions no walk. Being a
subtype is to be joined by such edges, none included, and the proper
supertypes are all that can be reached in this way, each once
(`subtypes_are_reachable`). Nothing is asked of the graph: it may have
cycles, and edges to types that were never declared.

The second part is about the order in which the proper supertypes are
listed. A type may wait in the queue more than once, and only when it is
taken out the walk sees whether it has been there; still the nearest types
come first (`ancestors_nearest_first`). `Frontier` is the invariant that
carries this: what is nearer than the front of the queue has been seen,
and the rest of the queue is at most one edge further. Of the direct
supertypes, the order is that of their declaration
(`visit_in_queue_order`).
-/
import Mathlib.Data.Nat.Find
import Mathlib.Logic.Relation
import ApiStubs.Proofs.HierarchyTheorems

namespace ApiStubs.TypeGraph

variable {g : TypeGraph} {a b : TypeId}

/-! ## Edges -/

/-- Does one type name another as its superclass or as an interface? -/
def Extends (g : TypeGraph) (a b : TypeId) : Prop :=
  ∃ node, g.nodes[a]? = some node ∧ (node.superclass = some b ∨ b ∈ node.interfaces)

theorem mem_supertypes_iff : b ∈ g.supertypes a ↔ g.Extends a b := by
  unfold supertypes Extends
  cases g.nodes[a]? with
  | none => simp
  | some node => simp

theorem reachable_iff : Relation.ReflTransGen g.Extends a b ↔ a = b ∨ g.Leads a b := by
  have hedges : g.Extends = fun a b => b ∈ g.supertypes a :=
    funext fun _ => funext fun _ => propext mem_supertypes_iff.symm
  rw [Relation.reflTransGen_iff_eq_or_transGen, hedges, eq_comm]

/-! ## What walks find -/

theorem nodup_visit (seen queue : List TypeId) : (g.visit seen queue).Nodup := by
  fun_induction visit g seen queue with
  | case1 => exact List.nodup_nil
  | case2 seen next queue hseen ih => exact ih
  | case3 seen next queue hseen ih =>
    exact List.nodup_cons.mpr ⟨not_mem_visit List.mem_cons_self, ih⟩

theorem isSubtype_iff_reachable :
    g.isSubtype a b = true ↔ Relation.ReflTransGen g.Extends a b :=
  isSubtype_iff.trans reachable_iff.symm

/-- **Subtypes are the types that reach.** A type is a subtype of all that
it reaches along edges and of nothing else; so being a subtype is
reflexive and transitive. The ancestors of a type are the other types that
it is a subtype of, each once. -/
theorem subtypes_are_reachable (g : TypeGraph) :
    (∀ a b, g.isSubtype a b = true ↔ Relation.ReflTransGen g.Extends a b) ∧
    (∀ a, g.isSubtype a a = true) ∧
    (∀ a b c, g.isSubtype a b = true → g.isSubtype b c = true → g.isSubtype a c = true) ∧
    ∀ a, (g.ancestors a).Nodup ∧ a ∉ g.ancestors a ∧
      ∀ b, b ∈ g.ancestors a ↔ b ≠ a ∧ g.isSubtype a b = true := by
  refine ⟨fun a b => isSubtype_iff_reachable, fun a => ?_, fun a b c hab hbc => ?_, fun a => ?_⟩
  · exact isSubtype_iff_reachable.mpr .refl
  · rw [isSubtype_iff_reachable] at hab hbc ⊢
    exact hab.trans hbc
  · refine ⟨nodup_visit _ _, not_mem_ancestors g a, fun b => ?_⟩
    rw [mem_ancestors_iff, isSubtype_iff]
    constructor
    · exact fun ⟨hne, hlead⟩ => ⟨hne, .inr hlead⟩
    · exact fun ⟨hne, hsub⟩ => ⟨hne, hsub.resolve_left hne.symm⟩

/-! ## Distances -/

/-- Some way from `start` has this many edges. -/
inductive Steps (g : TypeGraph) (start : TypeId) : Nat → TypeId → Prop
  | refl : g.Steps start 0 start
  | up {n : Nat} {a b : TypeId} : g.Steps start n a → g.Extends a b → g.Steps start (n + 1) b

/-- The number of edges on a shortest way. -/
def IsDistance (g : TypeGraph) (a b : TypeId) (n : Nat) : Prop :=
  g.Steps a n b ∧ ∀ k, g.Steps a k b → n ≤ k

variable {start : TypeId} {n : Nat} {seen queue now later : List TypeId}

theorem Steps.exists_distance (h : g.Steps start n b) : ∃ d, g.IsDistance start b d := by
  classical
  have hsome : ∃ k, g.Steps start k b := ⟨n, h⟩
  exact ⟨Nat.find hsome, Nat.find_spec hsome, fun k hk => Nat.find_min' hsome hk⟩

theorem Leads.exists_steps (h : g.Leads a b) : ∃ k, g.Steps a k b := by
  induction h with
  | single hedge => exact ⟨1, .up .refl (mem_supertypes_iff.mp hedge)⟩
  | tail _ hedge ih =>
    obtain ⟨k, hk⟩ := ih
    exact ⟨k + 1, .up hk (mem_supertypes_iff.mp hedge)⟩

/-! ## The nearest come first -/

/-- How far a walk from `start` has come. Of its queue, `now` is `n` edges
away and `later` one more. What is nearer has been seen, and what is just
as near has been seen or waits in `now`. -/
structure Frontier (g : TypeGraph) (start : TypeId) (n : Nat) (seen now later : List TypeId) :
    Prop where
  now_steps : ∀ x ∈ now, g.Steps start n x
  later_steps : ∀ x ∈ later, g.Steps start (n + 1) x
  nearer : ∀ k < n, ∀ x, g.Steps start k x → x ∈ seen
  level : ∀ x, g.Steps start n x → x ∈ seen ∨ x ∈ now
  closed : ∀ x ∈ seen, ∀ y, g.Extends x y → y ∈ seen ∨ y ∈ now ∨ y ∈ later

namespace Frontier

/-- A walk begins with the direct supertypes. -/
theorem init (g : TypeGraph) (start : TypeId) :
    g.Frontier start 1 [start] (g.supertypes start) [] where
  now_steps x hx := .up .refl (mem_supertypes_iff.mp hx)
  later_steps x hx := absurd hx List.not_mem_nil
  nearer k hk x hx := by
    obtain rfl : k = 0 := by omega
    cases hx
    exact List.mem_cons_self
  level x hx := by
    obtain ⟨⟩ | ⟨hstart, hedge⟩ := hx
    cases hstart
    exact .inr (mem_supertypes_iff.mpr hedge)
  closed x hx y hy := by
    rw [List.mem_singleton.mp hx] at hy
    exact .inr (.inl (mem_supertypes_iff.mpr hy))

/-- Once a level is through, the walk comes to the next one. -/
theorem next (h : g.Frontier start n seen [] later) : g.Frontier start (n + 1) seen later [] where
  now_steps := h.later_steps
  later_steps x hx := absurd hx List.not_mem_nil
  nearer k hk x hx := by
    rcases Nat.lt_succ_iff_lt_or_eq.mp hk with hlt | rfl
    · exact h.nearer k hlt x hx
    · exact (h.level x hx).resolve_right List.not_mem_nil
  level x hx := by
    obtain _ | ⟨hbefore, hedge⟩ := hx
    have hseen := (h.level _ hbefore).resolve_right List.not_mem_nil
    exact (h.closed _ hseen x hedge).imp_right (Or.resolve_left · List.not_mem_nil)
  closed x hx y hy := by
    rcases h.closed x hx y hy with hy | hy | hy
    · exact .inl hy
    · exact absurd hy List.not_mem_nil
    · exact .inr (.inl hy)

theorem skip (h : g.Frontier start n seen (a :: now) later) (ha : a ∈ seen) :
    g.Frontier start n seen now later where
  now_steps x hx := h.now_steps x (List.mem_cons_of_mem _ hx)
  later_steps := h.later_steps
  nearer := h.nearer
  level x hx := by
    rcases h.level x hx with hx | hx
    · exact .inl hx
    · rcases List.mem_cons.mp hx with rfl | hx
      · exact .inl ha
      · exact .inr hx
  closed x hx y hy := by
    rcases h.closed x hx y hy with hy | hy | hy
    · exact .inl hy
    · rcases List.mem_cons.mp hy with rfl | hy
      · exact .inl ha
      · exact .inr (.inl hy)
    · exact .inr (.inr hy)

theorem visit (h : g.Frontier start n seen (a :: now) later) :
    g.Frontier start n (a :: seen) now (later ++ g.supertypes a) where
  now_steps x hx := h.now_steps x (List.mem_cons_of_mem _ hx)
  later_steps x hx := by
    rcases List.mem_append.mp hx with hx | hx
    · exact h.later_steps x hx
    · exact .up (h.now_steps a List.mem_cons_self) (mem_supertypes_iff.mp hx)
  nearer k hk x hx := List.mem_cons_of_mem _ (h.nearer k hk x hx)
  level x hx := by
    rcases h.level x hx with hx | hx
    · exact .inl (List.mem_cons_of_mem _ hx)
    · rcases List.mem_cons.mp hx with rfl | hx
      · exact .inl List.mem_cons_self
      · exact .inr hx
  closed x hx y hy := by
    rcases List.mem_cons.mp hx with rfl | hx
    · exact .inr (.inr (List.mem_append_right _ (mem_supertypes_iff.mpr hy)))
    · rcases h.closed x hx y hy with hy | hy | hy
      · exact .inl (List.mem_cons_of_mem _ hy)
      · rcases List.mem_cons.mp hy with rfl | hy
        · exact .inl List.mem_cons_self
        · exact .inr (.inl hy)
      · exact .inr (.inr (List.mem_append_left _ hy))

/-- What the walk takes next is of the level it is at, or of the next one if
that level is through. -/
theorem head (h : g.Frontier start n seen now later) (hqueue : now ++ later = a :: queue) :
    ∃ n' now' later', g.Frontier start n' seen (a :: now') later' ∧ queue = now' ++ later' := by
  match now, hqueue with
  | [], hqueue =>
    obtain rfl : later = a :: queue := hqueue
    exact ⟨n + 1, queue, [], h.next, by simp⟩
  | x :: now, hqueue =>
    obtain ⟨rfl, rfl⟩ := List.cons.inj hqueue
    exact ⟨n, now, later, h, rfl⟩

end Frontier

/-- A walk lists nothing before what is nearer. -/
theorem Frontier.visit_nearest_first (h : g.Frontier start n seen now later)
    (hqueue : now ++ later = queue) :
    (g.visit seen queue).Pairwise fun x y =>
      ∀ k, g.Steps start k y → ∃ j ≤ k, g.Steps start j x := by
  fun_induction TypeGraph.visit g seen queue generalizing n now later with
  | case1 => exact .nil
  | case2 seen x queue hseen ih =>
    obtain ⟨_, _, _, hfrontier, rfl⟩ := h.head hqueue
    exact ih (hfrontier.skip hseen) rfl
  | case3 seen x queue hseen ih =>
    obtain ⟨n', now', later', hfrontier, rfl⟩ := h.head hqueue
    have hrest := ih hfrontier.visit (List.append_assoc ..).symm
    refine List.pairwise_cons.mpr ⟨fun y hy k hk => ?_, hrest⟩
    -- What comes later was not seen before, so it is not nearer than `x`.
    have hfar : n' ≤ k := by
      by_contra hlt
      exact not_mem_visit (List.mem_cons_of_mem _ (hfrontier.nearer k (by omega) y hk)) hy
    exact ⟨n', hfar, hfrontier.now_steps x List.mem_cons_self⟩

theorem ancestors_nearest_first (g : TypeGraph) (a : TypeId) :
    (g.ancestors a).Pairwise fun x y => ∀ k, g.Steps a k y → ∃ j ≤ k, g.Steps a j x :=
  (Frontier.init g a).visit_nearest_first (List.append_nil _)

/-! ## Direct supertypes keep their order -/

theorem ne_of_mem_visit (ha : a ∈ seen) (hb : b ∈ g.visit seen queue) : a ≠ b := by
  rintro rfl
  exact not_mem_visit ha hb

/-- Places in a queue, with one more at its front. -/
theorem idxOf_cons_le_iff {next : TypeId} (ha : next ≠ a) (hb : next ≠ b) :
    (next :: queue).idxOf a ≤ (next :: queue).idxOf b ↔ queue.idxOf a ≤ queue.idxOf b := by
  rw [List.idxOf_cons_ne _ ha, List.idxOf_cons_ne _ hb, Nat.succ_le_succ_iff]

theorem eq_of_idxOf_le_head (h : (b :: queue).idxOf a ≤ (b :: queue).idxOf b) : a = b := by
  rw [List.idxOf_cons_self] at h
  by_contra hne
  rw [List.idxOf_cons_ne _ (Ne.symm hne)] at h
  exact Nat.not_succ_le_zero _ h

/-- What is added to a queue stands behind all that was in it. -/
theorem idxOf_le_of_append {added : List TypeId} (hb : b ∈ queue)
    (h : (queue ++ added).idxOf a ≤ (queue ++ added).idxOf b) :
    a ∈ queue ∧ queue.idxOf a ≤ queue.idxOf b := by
  rw [List.idxOf_append_of_mem hb] at h
  by_cases ha : a ∈ queue
  · rw [List.idxOf_append_of_mem ha] at h
    exact ⟨ha, h⟩
  · rw [List.idxOf_append_of_notMem ha] at h
    have := List.idxOf_lt_length_of_mem hb
    omega

/-- What is in the queue comes before all else, and in the order of the
queue. -/
theorem visit_in_queue_order (seen queue : List TypeId) :
    (g.visit seen queue).Pairwise fun x y =>
      y ∈ queue → x ∈ queue ∧ queue.idxOf x ≤ queue.idxOf y := by
  fun_induction visit g seen queue with
  | case1 => exact .nil
  | case2 seen next queue hseen ih =>
    refine ih.imp_of_mem fun {x y} hx hy hxy hmem => ?_
    have hnextX := ne_of_mem_visit hseen hx
    have hnextY := ne_of_mem_visit hseen hy
    obtain ⟨hxmem, hle⟩ := hxy ((List.mem_cons.mp hmem).resolve_left hnextY.symm)
    exact ⟨List.mem_cons_of_mem _ hxmem, (idxOf_cons_le_iff hnextX hnextY).mpr hle⟩
  | case3 seen next queue hseen ih =>
    refine List.pairwise_cons.mpr ⟨fun y hy hmem => ?_, ?_⟩
    · rw [List.idxOf_cons_self]
      exact ⟨List.mem_cons_self, Nat.zero_le _⟩
    · refine ih.imp_of_mem fun {x y} hx hy hxy hmem => ?_
      have hnextX := ne_of_mem_visit List.mem_cons_self hx
      have hnextY := ne_of_mem_visit List.mem_cons_self hy
      have hyqueue := (List.mem_cons.mp hmem).resolve_left hnextY.symm
      obtain ⟨-, hle⟩ := hxy (List.mem_append_left _ hyqueue)
      obtain ⟨hxqueue, hle⟩ := idxOf_le_of_append hyqueue hle
      exact ⟨List.mem_cons_of_mem _ hxqueue, (idxOf_cons_le_iff hnextX hnextY).mpr hle⟩

end ApiStubs.TypeGraph
