/-
ApiStubs.TypeGraph.Height — how far up the hierarchy a type can be
followed.

The height of a type is the length of the longest walk from it along
supertype edges that ends as soon as it comes to a node it has passed.
`heightFrom` follows the walks one by one, and there may be very many of
them. Where no cycle is in reach, the walks can be followed together,
level by level, until a level is empty; `height` does so if it can.

Main statement: `height_eq_heightFrom`, it makes no difference.
-/
import ApiStubs.TypeGraph

namespace ApiStubs.TypeGraph

/-! ## Walk by walk -/

/-- The greatest of some numbers; zero if there are none. -/
def greatest (ns : List Nat) : Nat :=
  ns.foldr max 0

theorem le_greatest {n : Nat} : {ns : List Nat} → n ∈ ns → n ≤ greatest ns
  | m :: ns, h => by
    rcases List.mem_cons.1 h with rfl | h
    · exact Nat.le_max_left _ _
    · exact Nat.le_trans (le_greatest h) (Nat.le_max_right _ _)

theorem greatest_mem : {ns : List Nat} → greatest ns ≠ 0 → greatest ns ∈ ns
  | [], h => absurd rfl h
  | m :: ns, h => by
    have hmax : greatest (m :: ns) = max m (greatest ns) := rfl
    rw [hmax] at h ⊢
    rcases Nat.le_total (greatest ns) m with hm | hm
    · rw [Nat.max_eq_left hm]; exact List.mem_cons_self
    · rw [Nat.max_eq_right hm] at h ⊢
      exact List.mem_cons_of_mem _ (greatest_mem h)

/-- The length of the longest walk up from `id`, where a walk ends as soon
as it comes to a node of `path` or to one it has passed. -/
def heightFrom (g : TypeGraph) (path : List TypeId) (id : TypeId) : Nat :=
  if id ∈ path then 0
  else greatest ((g.supertypes id).attach.map fun ⟨parent, _⟩ =>
    g.heightFrom (id :: path) parent + 1)
termination_by g.unseen path
decreasing_by
  next hpath hmem => exact unseen_cons_lt (lt_size_of_mem_supertypes hmem) hpath

theorem heightFrom_of_mem {g : TypeGraph} {path : List TypeId} {id : TypeId} (h : id ∈ path) :
    g.heightFrom path id = 0 := by
  rw [heightFrom, if_pos h]

theorem heightFrom_of_not_mem {g : TypeGraph} {path : List TypeId} {id : TypeId}
    (h : id ∉ path) :
    g.heightFrom path id
      = greatest ((g.supertypes id).map fun parent => g.heightFrom (id :: path) parent + 1) := by
  rw [heightFrom, if_neg h]
  simp only [List.map_attach_eq_pmap, List.pmap_eq_map]

/-! ## Level by level -/

/-- The nodes one step above those of a level, each once. -/
def nextLevel (g : TypeGraph) (level : List TypeId) : List TypeId :=
  (level.flatMap g.supertypes).eraseDups

/-- How many further levels there are above a level, if they come to an end
within `fuel` levels. -/
def levelsAbove? (g : TypeGraph) : Nat → List TypeId → Option Nat
  | 0, _ => none
  | fuel + 1, level =>
    if (g.nextLevel level).isEmpty then some 0
    else (g.levelsAbove? fuel (g.nextLevel level)).map (· + 1)

/-- The length of the longest walk from a type up the hierarchy. Levels
that have not come to an end after as many steps as there are nodes never
will. -/
def height (g : TypeGraph) (id : TypeId) : Nat :=
  match g.levelsAbove? (g.size + 1) [id] with
  | some n => n
  | none => g.heightFrom [] id

/-! ## Both agree -/

/-- There are walks of this length up from a node, repetitions allowed. -/
def HasWalk (g : TypeGraph) : Nat → TypeId → Prop
  | 0, _ => True
  | n + 1, id => ∃ parent ∈ g.supertypes id, g.HasWalk n parent

theorem HasWalk.shorter {g : TypeGraph} : {n : Nat} → {id : TypeId} →
    g.HasWalk (n + 1) id → g.HasWalk n id
  | 0, _, _ => trivial
  | _ + 1, _, ⟨parent, hp, h⟩ => ⟨parent, hp, h.shorter⟩

theorem HasWalk.le {g : TypeGraph} {m n : Nat} {id : TypeId} (hmn : m ≤ n)
    (h : g.HasWalk n id) : g.HasWalk m id := by
  induction hmn with
  | refl => exact h
  | step _ ih => exact ih h.shorter

/-- One node leads up to another, in at least one step. -/
abbrev Leads (g : TypeGraph) : TypeId → TypeId → Prop :=
  Relation.TransGen fun a b => b ∈ g.supertypes a

theorem HasWalk.of_leads {g : TypeGraph} {a b : TypeId} (h : g.Leads a b) :
    ∀ {n : Nat}, g.HasWalk n b → g.HasWalk (n + 1) a := by
  induction h with
  | single hedge => exact fun hn => ⟨_, hedge, hn⟩
  | tail _ hedge ih =>
    intro n hn
    have hone : g.HasWalk (n + 1) _ := ⟨_, hedge, hn⟩
    exact (ih hone).shorter

/-- From a node on a cycle there are walks of any length. -/
theorem hasWalk_of_cycle {g : TypeGraph} {id : TypeId} (h : g.Leads id id) :
    ∀ n : Nat, g.HasWalk n id
  | 0 => trivial
  | n + 1 => HasWalk.of_leads h (hasWalk_of_cycle h n)

/-- What is followed walk by walk is a walk. -/
theorem hasWalk_heightFrom (g : TypeGraph) (path : List TypeId) (id : TypeId) :
    g.HasWalk (g.heightFrom path id) id := by
  by_cases hpath : id ∈ path
  · rw [heightFrom_of_mem hpath]; trivial
  · rw [heightFrom_of_not_mem hpath]
    by_cases hzero : greatest ((g.supertypes id).map fun parent =>
        g.heightFrom (id :: path) parent + 1) = 0
    · rw [hzero]; trivial
    · obtain ⟨parent, hp, heq⟩ := List.mem_map.1 (greatest_mem hzero)
      rw [← heq]
      exact ⟨parent, hp, hasWalk_heightFrom g (id :: path) parent⟩
termination_by g.unseen path
decreasing_by exact unseen_cons_lt (lt_size_of_mem_supertypes hp) hpath

/-- No cycle can be reached from a node. -/
def CycleFree (g : TypeGraph) (id : TypeId) : Prop :=
  ∀ b, b = id ∨ g.Leads id b → ¬ g.Leads b b

theorem CycleFree.parent {g : TypeGraph} {id parent : TypeId} (h : g.CycleFree id)
    (hp : parent ∈ g.supertypes id) : g.CycleFree parent := by
  rintro b (rfl | hb)
  · exact h b (.inr (.single hp))
  · exact h b (.inr (.trans (.single hp) hb))

/-- Where walks are bounded there is no cycle. -/
theorem cycleFree_of_bounded {g : TypeGraph} {bound : Nat} {id : TypeId}
    (h : ¬ g.HasWalk bound id) : g.CycleFree id := by
  rintro b (rfl | hb) hcycle
  · exact h (hasWalk_of_cycle hcycle bound)
  · exact h (HasWalk.of_leads hb (hasWalk_of_cycle hcycle bound)).shorter

/-- Where no cycle can be reached no walk is missed: a walk never comes
back to its path. -/
theorem le_heightFrom {g : TypeGraph} : {n : Nat} → {path : List TypeId} → {id : TypeId} →
    (∀ p ∈ path, g.Leads p id) → g.CycleFree id → g.HasWalk n id → n ≤ g.heightFrom path id
  | 0, _, _, _, _, _ => Nat.zero_le _
  | n + 1, path, id, hpath, hfree, ⟨parent, hp, h⟩ => by
    have hfresh : id ∉ path := fun hid => hfree id (.inl rfl) (hpath id hid)
    have hpath' : ∀ p ∈ id :: path, g.Leads p parent := by
      intro p hmem
      rcases List.mem_cons.1 hmem with rfl | hmem
      · exact .single hp
      · exact .tail (hpath p hmem) hp
    rw [heightFrom_of_not_mem hfresh]
    exact Nat.le_trans (Nat.succ_le_succ (le_heightFrom hpath' (hfree.parent hp) h))
      (le_greatest (List.mem_map.2 ⟨parent, hp, rfl⟩))

theorem mem_nextLevel {g : TypeGraph} {level : List TypeId} {parent : TypeId} :
    parent ∈ g.nextLevel level ↔ ∃ id ∈ level, parent ∈ g.supertypes id := by
  simp [nextLevel, List.mem_flatMap]

/-- The number of levels is the length of the longest walk. -/
theorem longest_of_levelsAbove? {g : TypeGraph} : {fuel k : Nat} → {level : List TypeId} →
    level ≠ [] → g.levelsAbove? fuel level = some k →
    (∃ id ∈ level, g.HasWalk k id) ∧ ∀ id ∈ level, ¬ g.HasWalk (k + 1) id
  | 0, _, _, _, h => by simp [levelsAbove?] at h
  | fuel + 1, k, level, hne, h => by
    rw [levelsAbove?] at h
    split at h
    · next hempty =>
      obtain rfl : 0 = k := by simpa using h
      refine ⟨(List.exists_mem_of_ne_nil level hne).imp fun _ hid => ⟨hid, trivial⟩, ?_⟩
      rintro id hid ⟨parent, hp, _⟩
      have := mem_nextLevel.2 ⟨id, hid, hp⟩
      simp [List.isEmpty_iff.1 hempty] at this
    · next hnext =>
      obtain ⟨k', hk, rfl⟩ := Option.map_eq_some_iff.1 h
      obtain ⟨⟨parent, hp, hw⟩, hbound⟩ :=
        longest_of_levelsAbove? (by simpa using hnext) hk
      obtain ⟨id, hid, hedge⟩ := mem_nextLevel.1 hp
      refine ⟨⟨id, hid, parent, hedge, hw⟩, ?_⟩
      rintro id hid ⟨parent, hp, hw⟩
      exact hbound parent (mem_nextLevel.2 ⟨id, hid, hp⟩) hw

/-- The height is what following the walks one by one gives. -/
theorem height_eq_heightFrom (g : TypeGraph) (id : TypeId) :
    g.height id = g.heightFrom [] id := by
  unfold height
  split
  · next k hk =>
    obtain ⟨⟨start, hmem, hw⟩, hbound⟩ := longest_of_levelsAbove? (by simp) hk
    obtain rfl : start = id := by simpa using hmem
    have hno := hbound start (by simp)
    refine Nat.le_antisymm (le_heightFrom (by simp) (cycleFree_of_bounded hno) hw) ?_
    exact Nat.le_of_not_lt fun hlt => hno ((hasWalk_heightFrom g [] start).le hlt)
  · rfl

end ApiStubs.TypeGraph
