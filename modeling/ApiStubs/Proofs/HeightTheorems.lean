/-
ApiStubs.Proofs.HeightTheorems — what the height of a type measures, on
every hierarchy.

`GuardedWalk` says which walks count, in terms of edges only: all nodes but
the last are distinct. The last one may be a node that the walk has passed,
so on a cycle of `n` types each of them has the height `n`. The recursion
that follows the walks keeps the path that led to it, and it is for any
path that its result is a longest walk: one that keeps clear of the path
(`exists_clearWalk`), and no such walk is longer (`le_heightFrom_of_clear`).

That the recursion ends is said by `heightWithin`, which gives up when too
many calls are nested: one more than there are nodes is never too many.
-/
import Mathlib.Order.Bounds.Basic
import ApiStubs.Proofs.ReachabilityTheorems

namespace ApiStubs.TypeGraph

variable {g : TypeGraph} {id parent : TypeId} {path walk : List TypeId} {k : Nat}

/-! ## Walks that count -/

/-- A walk of `k` edges up from a node that passes no node twice; it may end
at one that it has passed. -/
structure GuardedWalk (g : TypeGraph) (id : TypeId) (k : Nat) (walk : List TypeId) : Prop where
  start : walk.head? = some id
  steps : walk.length = k + 1
  edges : walk.IsChain g.Extends
  distinct : walk.dropLast.Nodup

/-- A guarded walk that ends as soon as it comes to a node of `path`. -/
structure ClearWalk (g : TypeGraph) (path : List TypeId) (id : TypeId) (k : Nat)
    (walk : List TypeId) : Prop extends g.GuardedWalk id k walk where
  clear : ∀ v ∈ walk.dropLast, v ∉ path

theorem clearWalk_nil : g.ClearWalk [] id k walk ↔ g.GuardedWalk id k walk :=
  ⟨fun h => h.toGuardedWalk, fun h => ⟨h, fun _ _ => List.not_mem_nil⟩⟩

/-- It takes no step to stay. -/
theorem clearWalk_stay (g : TypeGraph) (path : List TypeId) (id : TypeId) :
    g.ClearWalk path id 0 [id] :=
  ⟨⟨rfl, rfl, .singleton id, List.nodup_nil⟩, nofun⟩

/-- A walk with one more edge in front, and the first node on the path of the
rest. -/
theorem clearWalk_cons_iff :
    g.ClearWalk path id (k + 1) (id :: parent :: walk) ↔
      id ∉ path ∧ parent ∈ g.supertypes id
        ∧ g.ClearWalk (id :: path) parent k (parent :: walk) := by
  rw [mem_supertypes_iff]
  constructor
  · rintro ⟨⟨-, hsteps, hedges, hdistinct⟩, hclear⟩
    rw [List.dropLast_cons_cons] at hdistinct hclear
    obtain ⟨hedge, hedges⟩ := List.isChain_cons_cons.mp hedges
    obtain ⟨hfresh, hdistinct⟩ := List.nodup_cons.mp hdistinct
    refine ⟨hclear id List.mem_cons_self, hedge,
      ⟨rfl, by simpa using hsteps, hedges, hdistinct⟩, ?_⟩
    intro v hv hmem
    rcases List.mem_cons.mp hmem with rfl | hmem
    · exact hfresh hv
    · exact hclear v (List.mem_cons_of_mem _ hv) hmem
  · rintro ⟨hid, hedge, ⟨-, hsteps, hedges, hdistinct⟩, hclear⟩
    have hfresh : id ∉ (parent :: walk).dropLast := fun hmem => hclear id hmem List.mem_cons_self
    refine ⟨⟨rfl, by simpa using hsteps, List.isChain_cons_cons.mpr ⟨hedge, hedges⟩, ?_⟩, ?_⟩
    · rw [List.dropLast_cons_cons]
      exact List.nodup_cons.mpr ⟨hfresh, hdistinct⟩
    · rw [List.dropLast_cons_cons]
      intro v hv
      rcases List.mem_cons.mp hv with rfl | hv
      · exact hid
      · exact fun hmem => hclear v hv (List.mem_cons_of_mem _ hmem)

/-! ## The recursion finds a longest one -/

/-- What is followed walk by walk is a walk clear of the path. -/
theorem exists_clearWalk (g : TypeGraph) (path : List TypeId) (id : TypeId) :
    ∃ walk, g.ClearWalk path id (g.heightFrom path id) walk := by
  by_cases hpath : id ∈ path
  · rw [heightFrom_of_mem hpath]
    exact ⟨_, clearWalk_stay g path id⟩
  · rw [heightFrom_of_not_mem hpath]
    by_cases hzero : greatest ((g.supertypes id).map fun parent =>
        g.heightFrom (id :: path) parent + 1) = 0
    · rw [hzero]
      exact ⟨_, clearWalk_stay g path id⟩
    · obtain ⟨parent, hp, heq⟩ := List.mem_map.mp (greatest_mem hzero)
      rw [← heq]
      obtain ⟨walk, hwalk⟩ := exists_clearWalk g (id :: path) parent
      obtain ⟨rest, rfl⟩ : ∃ rest, walk = parent :: rest := List.head?_eq_some_iff.mp hwalk.start
      exact ⟨_, clearWalk_cons_iff.mpr ⟨hpath, hp, hwalk⟩⟩
termination_by g.unseen path
decreasing_by exact unseen_cons_lt (lt_size_of_mem_supertypes hp) hpath

/-- No walk clear of the path is missed. -/
theorem le_heightFrom_of_clear : {k : Nat} → {path walk : List TypeId} → {id : TypeId} →
    g.ClearWalk path id k walk → k ≤ g.heightFrom path id
  | 0, _, _, _, _ => Nat.zero_le _
  | k + 1, path, walk, id, h => by
    obtain ⟨rest, rfl⟩ : ∃ rest, walk = id :: rest := List.head?_eq_some_iff.mp h.start
    cases rest with
    | nil => exact absurd h.steps (by simp)
    | cons parent rest =>
      obtain ⟨hid, hp, hrest⟩ := clearWalk_cons_iff.mp h
      rw [heightFrom_of_not_mem hid]
      calc k + 1 ≤ g.heightFrom (id :: path) parent + 1 :=
            Nat.succ_le_succ (le_heightFrom_of_clear hrest)
        _ ≤ _ := le_greatest (List.mem_map.mpr ⟨parent, hp, rfl⟩)

/-- Every node of a walk but the last has an edge, so it is one of the
graph. -/
theorem lt_size_of_mem_dropLast {v : TypeId} : {walk : List TypeId} → walk.IsChain g.Extends →
    v ∈ walk.dropLast → v < g.size
  | [], _, hv => absurd hv List.not_mem_nil
  | [_], _, hv => absurd hv List.not_mem_nil
  | a :: b :: walk, hedges, hv => by
    obtain ⟨hedge, hedges⟩ := List.isChain_cons_cons.mp hedges
    rw [List.dropLast_cons_cons] at hv
    rcases List.mem_cons.mp hv with rfl | hv
    · exact lt_size_of_mem_supertypes (mem_supertypes_iff.mpr hedge)
    · exact lt_size_of_mem_dropLast hedges hv

theorem GuardedWalk.le_size (h : g.GuardedWalk id k walk) : k ≤ g.size := by
  have hsub : walk.dropLast ⊆ List.range g.size := fun v hv =>
    List.mem_range.mpr (lt_size_of_mem_dropLast h.edges hv)
  have hle := h.distinct.length_le_of_subset hsub
  rw [List.length_dropLast, h.steps, List.length_range] at hle
  exact hle

/-! ## The recursion ends -/

/-- What `heightFrom` gives if no more than `calls` calls of it may be
nested; `none` if they are not enough. -/
def heightWithin (g : TypeGraph) : (calls : Nat) → List TypeId → TypeId → Option Nat
  | 0, _, _ => none
  | calls + 1, path, id =>
    if id ∈ path then some 0
    else ((g.supertypes id).mapM (g.heightWithin calls (id :: path))).map fun heights =>
      greatest (heights.map (· + 1))

theorem mapM_eq_some_map {α β : Type} {f : α → Option β} {value : α → β} :
    {xs : List α} → (∀ x ∈ xs, f x = some (value x)) → xs.mapM f = some (xs.map value)
  | [], _ => rfl
  | x :: xs, h => by
    have hrest := mapM_eq_some_map fun y hy => h y (List.mem_cons_of_mem _ hy)
    simp [h x List.mem_cons_self, hrest]

/-- A nested call has one node less to come to, so there are never more of
them than nodes off the path. -/
theorem heightWithin_eq_some : {calls : Nat} → {path : List TypeId} → {id : TypeId} →
    g.unseen path < calls → g.heightWithin calls path id = some (g.heightFrom path id)
  | 0, _, _, h => absurd h (Nat.not_lt_zero _)
  | calls + 1, path, id, h => by
    rw [heightWithin]
    by_cases hid : id ∈ path
    · rw [if_pos hid, heightFrom_of_mem hid]
    · have hcalls : ∀ parent ∈ g.supertypes id,
          g.heightWithin calls (id :: path) parent = some (g.heightFrom (id :: path) parent) := by
        intro parent hp
        have hless := unseen_cons_lt (lt_size_of_mem_supertypes hp) hid
        exact heightWithin_eq_some (by omega)
      rw [if_neg hid, mapM_eq_some_map hcalls, heightFrom_of_not_mem hid]
      simp [Function.comp_def]

theorem unseen_nil (g : TypeGraph) : g.unseen [] = g.size := by
  simp [unseen, Count.left]

/-! ## Heights -/

/-- **Heights are lengths of longest guarded walks**, whether or not there
are cycles. The recursion that finds them ends, with at most one more
nested call than there are nodes; there is a guarded walk of that length
and none is longer; a height is at most the number of nodes. Where no cycle
is in reach, a type is higher than all its other supertypes. -/
theorem height_is_longest_guarded_walk (g : TypeGraph) (id : TypeId) :
    (∀ calls, g.size < calls → g.heightWithin calls [] id = some (g.height id)) ∧
      IsGreatest {k | ∃ walk, g.GuardedWalk id k walk} (g.height id) ∧
      g.height id ≤ g.size ∧
      (g.CycleFree id →
        ∀ sup, sup ≠ id → g.isSubtype id sup = true → g.height sup < g.height id) := by
  have hwalk : ∃ walk, g.GuardedWalk id (g.height id) walk := by
    rw [height_eq_heightFrom]
    obtain ⟨walk, hclear⟩ := exists_clearWalk g [] id
    exact ⟨walk, hclear.toGuardedWalk⟩
  refine ⟨fun calls hcalls => ?_, ⟨hwalk, ?_⟩, ?_, fun hfree sup hne hsub => ?_⟩
  · rw [height_eq_heightFrom]
    exact heightWithin_eq_some (unseen_nil g ▸ hcalls)
  · rintro k ⟨walk, hk⟩
    rw [height_eq_heightFrom]
    exact le_heightFrom_of_clear (clearWalk_nil.mpr hk)
  · obtain ⟨walk, hk⟩ := hwalk
    exact hk.le_size
  · have hleads : g.Leads id sup := (isSubtype_iff.mp hsub).resolve_left hne.symm
    exact hfree.height_lt hleads

namespace Spiral

/-- Two types that are below each other, and three that are not: the first
of them reaches the last by one edge and by two. -/
def graph : TypeGraph where
  nodes :=
    [{ name := "Child", superclass := some 1, interfaces := [2] },
     { name := "Base", superclass := some 2 },
     { name := "Root" },
     { name := "Egg", superclass := some 4 },
     { name := "Hen", superclass := some 3 }]

theorem child_cycleFree : graph.CycleFree 0 := by
  have hbound : ¬ graph.HasWalk 3 0 := by simp [HasWalk, graph, supertypes]
  exact cycleFree_of_bounded hbound

/-- The child is higher than the root, by the longer way; the two on the
cycle are as high as the cycle is long. -/
theorem child_above_root :
    graph.CycleFree 0 ∧ graph.isSubtype 0 2 = true ∧ graph.height 2 < graph.height 0 ∧
      IsGreatest {k | ∃ walk, graph.GuardedWalk 3 k walk} 2 := by
  have hsub : graph.isSubtype 0 2 = true := by cbv
  have hegg : graph.height 3 = 2 := by cbv
  refine ⟨child_cycleFree, hsub, ?_, ?_⟩
  · exact (height_is_longest_guarded_walk graph 0).2.2.2 child_cycleFree 2 (by decide) hsub
  · exact hegg ▸ (height_is_longest_guarded_walk graph 3).2.1

end Spiral

end ApiStubs.TypeGraph
