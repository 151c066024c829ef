/-
ApiStubs.Proofs.PathTheorems — the order of paths, and where they lead.

Paths are kept as they are spelled and compared by their components. That
is a linear order of component lists (`compare_eq_iff`), so that sorted
paths which are equal in it stand together.

Where a path leads is decided by its components as well, if it leads
anywhere (`locate?_eq_some`): they are the steps of a walk from the
current directory. The converse fails, since `.` and `..` are components
too. It holds of paths that are made of names alone, for these walks never
turn back (`Path.NamesOnly.components_eq`).
-/
import Mathlib.Order.Compare
import ApiStubs.Files.System

namespace ApiStubs

/-! ## The order of paths -/

namespace Component

instance : Std.TransCmp compare :=
  inferInstanceAs (Std.TransCmp (compareLex (compareOn rank) (compareOn text)))

instance : Std.LawfulEqCmp compare where
  eq_of_compare {a b} h := by
    have hkeys : a.rank = b.rank ∧ a.text = b.text := by
      simpa [compare, Ordering.then_eq_eq] using h
    cases a <;> cases b <;> simp_all [rank, text]

end Component

namespace Path

variable {a b c : String}

theorem compareComponents_eq_compareLex :
    ∀ as bs : List Component, compareComponents as bs = List.compareLex Component.compare as bs
  | [], [] => rfl
  | [], _ :: _ => rfl
  | _ :: _, [] => rfl
  | a :: as, b :: bs => by
    rw [compareComponents, compareComponents_eq_compareLex as bs, List.compareLex_cons_cons]

theorem compare_eq_compareLex (a b : String) :
    compare a b = List.compareLex Component.compare (components a) (components b) :=
  compareComponents_eq_compareLex _ _

instance : Std.TransCmp compare where
  eq_swap {a b} := by
    rw [compare_eq_compareLex, compare_eq_compareLex]
    exact Std.OrientedCmp.eq_swap
  isLE_trans {a b c} := by
    simp only [compare_eq_compareLex]
    exact Std.TransCmp.isLE_trans

/-- Paths are equal in the order if their components are the same. -/
theorem compare_eq_iff : compare a b = .eq ↔ components a = components b := by
  rw [compare_eq_compareLex]
  exact Std.LawfulEqCmp.compare_eq_iff_eq

theorem isLE_total (a b : String) : ((compare a b).isLE || (compare b a).isLE) = true := by
  have hswap : compare b a = (compare a b).swap := Std.OrientedCmp.eq_swap
  rw [hswap]
  cases compare a b <;> rfl

end Path

/-! ## Where a path leads -/

/-- Where a component leads from a location. -/
def Component.lead (location : Location) : Component → Location
  | .root => []
  | .here => location
  | .up => location.dropLast
  | .name text => location ++ [text]

/-- Where components lead, one after the other. -/
def Path.destination (location : Location) (components : List Component) : Location :=
  components.foldl Component.lead location

/-- Before the leading slash there is an empty piece. -/
theorem Path.split_of_isAbsolute {path : String} (h : isAbsolute path = true) :
    ∃ rest, Text.split '/' path = "" :: rest := by
  unfold isAbsolute Text.startsWith at h
  unfold Text.split
  match hchars : path.toList, h with
  | c :: cs, h =>
    have hslash : c = '/' := by
      by_contra hne
      have hslash : ¬ '/' = c := fun heq => hne heq.symm
      simp [Text.afterChars, hslash] at h
    rw [hslash, Text.splitChars, if_pos rfl]
    exact ⟨_, rfl⟩

namespace FileSystem

variable {fs : FileSystem} {location place : Location} {names : List String} {path : String}

theorem follow_eq_some (h : fs.follow location names = some place) :
    place = Path.destination location (names.filterMap Path.piece?) := by
  induction names generalizing location with
  | nil => exact (Option.some.inj h).symm
  | cons name names ih =>
    rw [follow] at h
    split at h
    · cases h
    split at h
    · next hstay =>
      have hpiece : Path.piece? name = none := by simp_all [Path.piece?]
      rw [List.filterMap_cons_none hpiece]
      exact ih h
    · next hmove =>
      split at h
      · next hup =>
        have hpiece : Path.piece? name = some .up := by simp_all [Path.piece?]
        rw [List.filterMap_cons_some hpiece]
        exact ih h
      · next hup =>
        split at h
        · have hpiece : Path.piece? name = some (.name name) := by simp_all [Path.piece?]
          rw [List.filterMap_cons_some hpiece]
          exact ih h
        · cases h

/-- The pieces between slashes lead where the components do. -/
theorem destination_split (fs : FileSystem) (path : String) :
    Path.destination (fs.start path) ((Text.split '/' path).filterMap Path.piece?)
      = Path.destination fs.currentDir (Path.components path) := by
  unfold start Path.components
  cases habsolute : Path.isAbsolute path with
  | true =>
    obtain ⟨rest, hsplit⟩ := Path.split_of_isAbsolute habsolute
    rw [hsplit, List.filterMap_cons_none (by simp [Path.piece?])]
    rfl
  | false =>
    cases Text.split '/' path with
    | nil => rfl
    | cons first rest =>
      by_cases hhere : first = "."
      · rw [List.filterMap_cons_none (by simp [Path.piece?, hhere])]
        simp [hhere, Path.destination, Component.lead]
      · cases hpiece : Path.piece? first with
        | none => simp [hhere, hpiece]
        | some c => simp [hhere, hpiece]

/-- **A path leads where its components do**, if it leads anywhere. -/
theorem locate?_eq_some (h : fs.locate? path = some place) :
    place = Path.destination fs.currentDir (Path.components path) := by
  unfold locate? at h
  split at h
  · cases h
  · rw [follow_eq_some h, destination_split]

/-- Paths with the same components lead to the same place, if they lead
anywhere. -/
theorem locate?_eq_of_components {a b : String} {p q : Location} (ha : fs.locate? a = some p)
    (hb : fs.locate? b = some q) (h : Path.components a = Path.components b) :
    fs.locate? a = fs.locate? b := by
  rw [ha, hb, locate?_eq_some ha, locate?_eq_some hb, h]

end FileSystem

/-! ## Names alone -/

namespace Path

/-- Is the path made of names alone: neither absolute, nor with a dot
component that counts? -/
def NamesOnly (path : String) : Prop :=
  ∀ c ∈ components path, ∃ text, c = .name text

theorem map_name_text {components : List Component}
    (h : ∀ c ∈ components, ∃ text, c = .name text) :
    (components.map Component.text).map Component.name = components := by
  induction components with
  | nil => rfl
  | cons c components ih =>
    obtain ⟨⟨text, rfl⟩, hrest⟩ := List.forall_mem_cons.mp h
    rw [List.map_cons, List.map_cons, ih hrest]
    rfl

theorem destination_of_names {components : List Component}
    (h : ∀ c ∈ components, ∃ text, c = .name text) (location : Location) :
    destination location components = location ++ components.map Component.text := by
  induction components generalizing location with
  | nil => simp [destination]
  | cons c components ih =>
    obtain ⟨⟨text, rfl⟩, hrest⟩ := List.forall_mem_cons.mp h
    have hstep := ih hrest (location ++ [text])
    simpa [destination, Component.lead, Component.text] using hstep

/-- Of names, paths that lead to one place have the same. -/
theorem NamesOnly.components_eq {fs : FileSystem} {a b : String} {place : Location}
    (ha : NamesOnly a) (hb : NamesOnly b) (hplace : fs.locate? a = some place)
    (h : fs.locate? a = fs.locate? b) : components a = components b := by
  have hwalks := (FileSystem.locate?_eq_some hplace).symm.trans
    (FileSystem.locate?_eq_some (h ▸ hplace))
  rw [destination_of_names ha, destination_of_names hb, List.append_cancel_left_eq] at hwalks
  rw [← map_name_text ha, ← map_name_text hb, hwalks]

end Path

end ApiStubs
