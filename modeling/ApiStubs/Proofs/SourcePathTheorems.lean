/-
ApiStubs.Proofs.SourcePathTheorems — where a printed source path leads.

A source file is shown relative to the project's root: after what both
paths have in common, one `..` for each component that is left of the
root, and then what is left of the file. That leads back to the file if
each `..` undoes one component of the root. It does not if such a component
is a `..` itself. Going up then adds to it, and the path leads past the
common front, unless the file climbs up to the top anyway
(`source_path_leads_iff`).

Where the file goes on and the root has a `..` right after the front, the
file is shown as it is. A `..` further down is not looked for.
-/
import ApiStubs.Proofs.CutTheorems
import ApiStubs.Proofs.PathTheorems
import ApiStubs.Stub.Function

namespace ApiStubs

/-! ## Pieces between slashes -/

namespace Text

theorem splitChars_ne_nil (sep : Char) (cs : List Char) : splitChars sep cs ≠ [] := by
  cases cs with
  | nil => exact List.cons_ne_nil _ _
  | cons c cs =>
    rw [splitChars]
    split
    · exact List.cons_ne_nil _ _
    · split <;> exact List.cons_ne_nil _ _

theorem splitChars_append_cons (sep : Char) (cs rest : List Char) :
    splitChars sep (cs ++ sep :: rest) = splitChars sep cs ++ splitChars sep rest := by
  induction cs with
  | nil => simp [splitChars]
  | cons c cs ih =>
    rw [List.cons_append, splitChars, splitChars, ih]
    split
    · rfl
    · cases hsplit : splitChars sep cs with
      | nil => exact absurd hsplit (splitChars_ne_nil sep cs)
      | cons piece pieces => rfl

theorem not_mem_of_mem_splitChars {sep : Char} {cs piece : List Char}
    (h : piece ∈ splitChars sep cs) : sep ∉ piece := by
  induction cs generalizing piece with
  | nil =>
    rw [List.mem_singleton.mp h]
    exact List.not_mem_nil
  | cons c cs ih =>
    rw [splitChars] at h
    split at h
    · rcases List.mem_cons.mp h with rfl | h
      · exact List.not_mem_nil
      · exact ih h
    · next hc =>
      cases hsplit : splitChars sep cs with
      | nil => exact absurd hsplit (splitChars_ne_nil sep cs)
      | cons first rest =>
        rw [hsplit] at h ih
        rcases List.mem_cons.mp h with rfl | h
        · exact List.not_mem_cons_of_ne_of_not_mem (Ne.symm hc) (ih List.mem_cons_self)
        · exact ih (List.mem_cons_of_mem _ h)

end Text

namespace Component

/-- Is the component one piece between slashes? -/
structure IsPiece (c : Component) : Prop where
  noSlash : '/' ∉ c.text.toList
  piece : Path.piece? c.text = some c

theorem isPiece_up : IsPiece .up := ⟨by decide, rfl⟩

theorem IsPiece.eq_name {c : Component} (h : c.IsPiece) (hup : c ≠ .up) :
    ∃ text, c = .name text := by
  cases c with
  | root => exact absurd (show '/' ∈ "/".toList from List.mem_cons_self) h.noSlash
  | here => cases h.piece
  | up => exact absurd rfl hup
  | name text => exact ⟨text, rfl⟩

end Component

namespace Path

open Text

variable {dir path : String}

/-- What stands between the slashes of a path, wherever it starts. -/
def pieces (path : String) : List Component :=
  (Text.split '/' path).filterMap piece?

theorem pieces_empty : pieces "" = [] := rfl

theorem pieces_append (a b : String) : pieces (a ++ "/" ++ b) = pieces a ++ pieces b := by
  have hslash : (a ++ "/" ++ b).toList = a.toList ++ '/' :: b.toList := by simp
  rw [pieces, Text.split, hslash, splitChars_append_cons, List.map_append, List.filterMap_append]
  rfl

theorem isAbsolute_iff : isAbsolute path = true ↔ first? path = some '/' := by
  unfold isAbsolute startsWith first?
  cases hchars : path.toList with
  | nil => simp [afterChars]
  | cons c cs =>
    by_cases hc : c = '/'
    · simp [afterChars, hc]
    · simp [afterChars, hc, Ne.symm hc]

theorem isAbsolute_append (h : dir ≠ "") (rest : String) :
    isAbsolute (dir ++ rest) = isAbsolute dir := by
  rw [Bool.eq_iff_iff, isAbsolute_iff, isAbsolute_iff, first?, first?, String.toList_append]
  cases hchars : dir.toList with
  | nil => exact absurd (String.toList_eq_nil_iff.mp hchars) h
  | cons c cs => rfl

theorem isAbsolute_join (dir path : String) :
    isAbsolute (join dir path) = (isAbsolute path || isAbsolute dir) := by
  unfold join
  split
  · next habsolute => rw [habsolute, Bool.true_or]
  · next hrelative =>
    rw [Bool.eq_false_iff.mpr hrelative, Bool.false_or]
    by_cases hempty : dir = ""
    · subst hempty
      exact Bool.eq_false_iff.mpr hrelative
    · split
      · exact isAbsolute_append hempty path
      · rw [String.append_assoc, isAbsolute_append hempty]

theorem pieces_join (h : isAbsolute path = false) (dir : String) :
    pieces (join dir path) = pieces dir ++ pieces path := by
  unfold join
  rw [if_neg (Bool.eq_false_iff.mp h)]
  split
  · next hend =>
    rcases Bool.or_eq_true_iff.mp hend with hempty | hslash
    · rw [String.isEmpty_iff.mp hempty, String.empty_append, pieces_empty, List.nil_append]
    · obtain ⟨front, hfront⟩ := List.getLast?_eq_some_iff.mp (of_decide_eq_true hslash)
      have hdir : dir = String.ofList front ++ "/" := by
        apply String.toList_inj.mp
        simpa using hfront
      have hend : pieces (String.ofList front ++ "/") = pieces (String.ofList front) := by
        have happend := pieces_append (String.ofList front) ""
        rwa [String.append_empty, pieces_empty, List.append_nil] at happend
      rw [hdir, pieces_append, hend]
  · exact pieces_append dir path

theorem components_of_isAbsolute (h : isAbsolute path = true) :
    components path = .root :: pieces path := by
  obtain ⟨rest, hsplit⟩ := split_of_isAbsolute h
  have hfirst : piece? "" = none := rfl
  simp only [components, pieces, hsplit, h, if_true, List.filterMap_cons_none hfirst]

theorem text_of_piece? {s : String} {c : Component} (h : piece? s = some c) : c.text = s := by
  unfold piece? at h
  split at h
  · cases h
  · split at h
    · next hup =>
      cases h
      exact hup.symm
    · cases h
      rfl

theorem isPiece_of_mem_pieces {c : Component} (h : c ∈ pieces path) : c.IsPiece := by
  obtain ⟨s, hs, hpiece⟩ := List.mem_filterMap.mp h
  obtain ⟨cs, hcs, rfl⟩ := List.mem_map.mp hs
  have htext := text_of_piece? hpiece
  refine ⟨?_, by rw [htext, hpiece]⟩
  rw [htext, String.toList_ofList]
  exact not_mem_of_mem_splitChars hcs

theorem isAbsolute_of_isPiece {c : Component} (h : c.IsPiece) : isAbsolute c.text = false := by
  rw [Bool.eq_false_iff, Ne, isAbsolute_iff]
  exact fun hfirst => h.noSlash (List.mem_of_head? hfirst)

theorem pieces_of_isPiece {c : Component} (h : c.IsPiece) : pieces c.text = [c] := by
  rw [pieces, Text.split, splitChars_eq_singleton h.noSlash]
  simp [h.piece]

/-! ## Paths made of pieces -/

theorem isAbsolute_ofComponents {start : String} (h : isAbsolute start = true)
    (cs : List Component) : isAbsolute (ofComponents start cs) = true := by
  induction cs generalizing start with
  | nil => exact h
  | cons c cs ih => exact ih (by rw [isAbsolute_join, h, Bool.or_true])

theorem ofComponents_of_pieces {start : String} {cs : List Component}
    (hstart : isAbsolute start = false) (hcs : ∀ c ∈ cs, c.IsPiece) :
    isAbsolute (ofComponents start cs) = false ∧
      pieces (ofComponents start cs) = pieces start ++ cs := by
  induction cs generalizing start with
  | nil => exact ⟨hstart, (List.append_nil _).symm⟩
  | cons c cs ih =>
    obtain ⟨hc, hcs⟩ := List.forall_mem_cons.mp hcs
    have hrelative := isAbsolute_of_isPiece hc
    have hjoin : isAbsolute (join start c.text) = false := by
      rw [isAbsolute_join, hrelative, hstart, Bool.or_false]
    obtain ⟨hwhole, hpieces⟩ := ih hjoin hcs
    refine ⟨hwhole, hpieces.trans ?_⟩
    rw [pieces_join hrelative, pieces_of_isPiece hc, List.append_assoc, List.singleton_append]

/-- The absolute form of a path is absolute. -/
theorem isAbsolute_absolute {currentDir : String} (hdir : isAbsolute currentDir = true)
    (hpath : path ≠ "") : isAbsolute (absolute currentDir path) = true := by
  have hstart : isAbsolute (if isAbsolute path then absoluteStart path else currentDir) = true := by
    split
    · unfold absoluteStart
      split <;> decide
    · exact hdir
  have hempty : ¬ path.isEmpty = true := fun h => hpath (String.isEmpty_iff.mp h)
  unfold absolute
  rw [if_neg hempty]
  simp only
  split
  · rw [isAbsolute_join, isAbsolute_ofComponents hstart, Bool.or_true]
  · exact isAbsolute_ofComponents hstart _

/-! ## Walks -/

variable {s t : Location} {c : Component} {cs : List Component}

@[simp] theorem destination_cons (s : Location) (c : Component) (cs : List Component) :
    destination s (c :: cs) = destination (c.lead s) cs := rfl

@[simp] theorem destination_append (s : Location) (cs ds : List Component) :
    destination s (cs ++ ds) = destination (destination s cs) ds :=
  List.foldl_append

/-- Where a path leads if nothing is looked up on the way: every `..` takes
back the name before it, and at the top there is nothing to take back. -/
def collapse (path : String) : Location :=
  destination [] (components path)

theorem collapse_of_isAbsolute (h : isAbsolute path = true) :
    collapse path = destination [] (pieces path) := by
  rw [collapse, components_of_isAbsolute h]
  rfl

/-- The walk that goes up once for every component. -/
def ups (cs : List Component) : List Component := cs.map fun _ => .up

theorem destination_cons_ups (s : Location) (c : Component) (cs : List Component) :
    destination s (c :: cs ++ ups (c :: cs))
      = (destination (c.lead s) (cs ++ ups cs)).dropLast := by
  have hlast : ups (c :: cs) = ups cs ++ [.up] := by
    simp only [ups, List.map_const', List.length_cons, List.replicate_succ']
  rw [hlast, List.cons_append, destination_cons, ← List.append_assoc, destination_append]
  rfl

/-- Going up undoes names. -/
theorem destination_ups_of_names (hcs : ∀ c ∈ cs, c.IsPiece) (h : .up ∉ cs) (s : Location) :
    destination s (cs ++ ups cs) = s := by
  induction cs generalizing s with
  | nil => rfl
  | cons c cs ih =>
    obtain ⟨hc, hrest⟩ := List.forall_mem_cons.mp hcs
    obtain ⟨hup, hnames⟩ := not_or.mp (mt List.mem_cons.mpr h)
    obtain ⟨text, rfl⟩ := hc.eq_name (Ne.symm hup)
    rw [destination_cons_ups, ih hrest hnames]
    exact List.dropLast_concat

/-- After a `..` it goes up at least one name too far, if there is one. -/
theorem length_destination_ups (hcs : ∀ c ∈ cs, c.IsPiece) (h : .up ∈ cs) (s : Location) :
    (destination s (cs ++ ups cs)).length ≤ s.length - 1 := by
  induction cs generalizing s with
  | nil => cases h
  | cons c cs ih =>
    obtain ⟨hc, hrest⟩ := List.forall_mem_cons.mp hcs
    rw [destination_cons_ups, List.length_dropLast]
    by_cases hup : c = .up
    · subst hup
      by_cases hagain : .up ∈ cs
      · have hlength := ih hrest hagain s.dropLast
        rw [List.length_dropLast] at hlength
        simp only [Component.lead]
        omega
      · rw [destination_ups_of_names hrest hagain]
        simp only [Component.lead, List.length_dropLast]
        omega
    · obtain ⟨text, rfl⟩ := hc.eq_name hup
      have hlater : .up ∈ cs := (List.mem_cons.mp h).resolve_left (Ne.symm hup)
      have hlength := ih hrest hlater (s ++ [text])
      rw [List.length_append, List.length_singleton] at hlength
      simp only [Component.lead]
      omega

/-- Does a walk come to the top? -/
def Climbs (s : Location) (cs : List Component) : Prop :=
  ∃ front, front <+: cs ∧ destination s front = []

instance (s : Location) (cs : List Component) : Decidable (Climbs s cs) :=
  decidable_of_iff (∃ front ∈ cs.inits, destination s front = []) (by simp [Climbs])

theorem climbs_of_eq_nil (h : s = []) : Climbs s cs :=
  ⟨[], List.nil_prefix, h⟩

theorem climbs_cons (hs : s ≠ []) : Climbs s (c :: cs) ↔ Climbs (c.lead s) cs := by
  constructor
  · rintro ⟨front, hfront, htop⟩
    cases front with
    | nil => exact absurd htop hs
    | cons d front =>
      obtain ⟨rfl, hrest⟩ := List.cons_prefix_cons.mp hfront
      exact ⟨front, hrest, htop⟩
  · rintro ⟨front, hfront, htop⟩
    exact ⟨c :: front, List.cons_prefix_cons.mpr ⟨rfl, hfront⟩, htop⟩

/-- **Walks that start at different depths meet at the top only.** -/
theorem destination_eq_iff_climbs (hcs : ∀ c ∈ cs, c.IsPiece) (h : t.length < s.length) :
    destination t cs = destination s cs ↔ Climbs s cs := by
  induction cs generalizing s t with
  | nil =>
    have hs : s ≠ [] := List.ne_nil_of_length_pos (Nat.zero_lt_of_lt h)
    constructor
    · rintro rfl
      exact absurd h (Nat.lt_irrefl _)
    · rintro ⟨front, hfront, htop⟩
      rw [List.prefix_nil.mp hfront] at htop
      exact absurd htop hs
  | cons c cs ih =>
    obtain ⟨hc, hrest⟩ := List.forall_mem_cons.mp hcs
    have hs : s ≠ [] := List.ne_nil_of_length_pos (Nat.zero_lt_of_lt h)
    rw [climbs_cons hs, destination_cons, destination_cons]
    by_cases hup : c = .up
    · subst hup
      simp only [Component.lead]
      -- the deeper walk has one name left to take back, or more
      by_cases hone : s.length = 1
      · have ht : t.dropLast = [] := by
          apply List.eq_nil_of_length_eq_zero
          rw [List.length_dropLast]
          omega
        have hs : s.dropLast = [] := by
          apply List.eq_nil_of_length_eq_zero
          rw [List.length_dropLast, hone]
        rw [ht, hs]
        exact iff_of_true rfl (climbs_of_eq_nil rfl)
      · refine ih hrest ?_
        rw [List.length_dropLast, List.length_dropLast]
        omega
    · obtain ⟨text, rfl⟩ := hc.eq_name hup
      refine ih hrest ?_
      simpa [Component.lead] using h

/-! ## What two paths have in common -/

/-- Two lists of components, their common front and what is left of each
after it. -/
structure Diverges (file root front ahead behind : List Component) : Prop where
  file_eq : file = front ++ ahead
  root_eq : root = front ++ behind
  differ : ∀ c, ahead.head? = some c → behind.head? ≠ some c

theorem exists_diverges : ∀ file root : List Component,
    ∃ front ahead behind, Diverges file root front ahead behind
  | [], root => ⟨[], [], root, rfl, rfl, nofun⟩
  | c :: file, [] => ⟨[], c :: file, [], rfl, rfl, nofun⟩
  | c :: file, d :: root => by
    by_cases heq : c = d
    · subst heq
      obtain ⟨front, ahead, behind, h⟩ := exists_diverges file root
      exact ⟨c :: front, ahead, behind, by rw [h.file_eq]; rfl, by rw [h.root_eq]; rfl, h.differ⟩
    · refine ⟨[], c :: file, d :: root, rfl, rfl, fun e he hroot => heq ?_⟩
      exact (Option.some.inj he).trans (Option.some.inj hroot).symm

theorem stepsFrom_append (front ahead behind : List Component) :
    stepsFrom (front ++ ahead) (front ++ behind) = stepsFrom ahead behind := by
  induction front with
  | nil => rfl
  | cons c front ih => rw [List.cons_append, List.cons_append, stepsFrom, if_pos rfl, ih]

/-- Is the file shown as it is: does it differ from a root that goes up right
after the common front? -/
def Unreached (ahead behind : List Component) : Prop :=
  ahead ≠ [] ∧ behind.head? = some .up

instance (ahead behind : List Component) : Decidable (Unreached ahead behind) :=
  inferInstanceAs (Decidable (_ ∧ _))

variable {file root front ahead behind : List Component}

theorem Diverges.stepsFrom_eq_none (h : Diverges file root front ahead behind)
    (hunreached : Unreached ahead behind) : stepsFrom file root = none := by
  rw [h.file_eq, h.root_eq, stepsFrom_append]
  obtain ⟨hahead, hbehind⟩ := hunreached
  cases ahead with
  | nil => exact absurd rfl hahead
  | cons a ahead =>
    obtain ⟨rest, rfl⟩ := List.head?_eq_some_iff.mp hbehind
    have hne : a ≠ .up := fun heq => h.differ a rfl (heq ▸ rfl)
    rw [stepsFrom, if_neg hne, if_pos rfl]

theorem Diverges.stepsFrom_eq_some (h : Diverges file root front ahead behind)
    (hreached : ¬ Unreached ahead behind) :
    stepsFrom file root = some (ups behind ++ ahead) := by
  rw [h.file_eq, h.root_eq, stepsFrom_append]
  cases behind with
  | nil => exact stepsFrom.eq_1 ahead
  | cons b behind =>
    cases ahead with
    | nil =>
      rw [stepsFrom, List.append_nil]
      · rfl
      · exact List.cons_ne_nil b behind
    | cons a ahead =>
      have hne : a ≠ b := fun heq => h.differ a rfl (heq ▸ rfl)
      have hup : b ≠ .up := fun heq => hreached ⟨List.cons_ne_nil _ _, heq ▸ rfl⟩
      rw [stepsFrom, if_neg hne, if_neg hup]
      rfl

theorem isPiece_of_mem_ups (h : c ∈ ups cs) : c.IsPiece := by
  obtain ⟨_, _, rfl⟩ := List.mem_map.mp h
  exact Component.isPiece_up

/-- Absolute paths have the leading slash in common. -/
theorem Diverges.exists_common {path base : String} (hpath : isAbsolute path = true)
    (hbase : isAbsolute base = true)
    (h : Diverges (components path) (components base) front ahead behind) :
    ∃ common, front = .root :: common ∧ pieces path = common ++ ahead
      ∧ pieces base = common ++ behind := by
  have hfile := h.file_eq
  have hroot := h.root_eq
  rw [components_of_isAbsolute hpath] at hfile
  rw [components_of_isAbsolute hbase] at hroot
  cases front with
  | nil =>
    rw [List.nil_append] at hfile hroot
    exact absurd (hroot ▸ rfl) (h.differ .root (hfile ▸ rfl))
  | cons c common =>
    obtain ⟨rfl, hpieces⟩ := List.cons.inj hfile
    exact ⟨common, rfl, hpieces, (List.cons.inj hroot).2⟩

/-- **Where a relative path leads from its base.** -/
theorem Diverges.leads_iff {path base : String} (hpath : isAbsolute path = true)
    (hbase : isAbsolute base = true)
    (h : Diverges (components path) (components base) front ahead behind) :
    collapse (join base ((relative? path base).getD path)) = collapse path ↔
      Unreached ahead behind ∨ .up ∉ behind ∨ Climbs (destination [] front) ahead := by
  have hrelative : relative? path base
      = (stepsFrom (components path) (components base)).map (ofComponents "") := by
    rw [relative?, if_pos (hpath.trans hbase.symm)]
  rw [hrelative]
  by_cases hunreached : Unreached ahead behind
  · rw [h.stepsFrom_eq_none hunreached, Option.map_none, Option.getD_none, join, if_pos hpath]
    exact iff_of_true rfl (.inl hunreached)
  · rw [h.stepsFrom_eq_some hunreached, Option.map_some, Option.getD_some]
    obtain ⟨common, rfl, hfile, hroot⟩ := h.exists_common hpath hbase
    have hahead : ∀ c ∈ ahead, c.IsPiece := fun c hc =>
      isPiece_of_mem_pieces (hfile ▸ List.mem_append_right common hc)
    have hbehind : ∀ c ∈ behind, c.IsPiece := fun c hc =>
      isPiece_of_mem_pieces (hroot ▸ List.mem_append_right common hc)
    have hstart : isAbsolute "" = false := rfl
    obtain ⟨hsteps, hpieces⟩ := ofComponents_of_pieces hstart
      (List.forall_mem_append.mpr ⟨fun c => isPiece_of_mem_ups, hahead⟩)
    have hjoin : isAbsolute (join base (ofComponents "" (ups behind ++ ahead))) = true := by
      rw [isAbsolute_join, hbase, Bool.or_true]
    -- the walk to the root, up again and on, against the walk to the file
    have hwalk : collapse (join base (ofComponents "" (ups behind ++ ahead)))
        = destination (destination (destination [] common) (behind ++ ups behind)) ahead := by
      rw [collapse_of_isAbsolute hjoin, pieces_join hsteps, hpieces, hroot, pieces_empty]
      simp
    have hdirect : collapse path = destination (destination [] common) ahead := by
      rw [collapse_of_isAbsolute hpath, hfile, destination_append]
    have hfront : destination [] (.root :: common) = destination [] common := rfl
    rw [hwalk, hdirect, hfront, or_iff_right hunreached]
    by_cases hup : .up ∈ behind
    · rw [or_iff_right (not_not_intro hup)]
      have hlength := length_destination_ups hbehind hup (destination [] common)
      by_cases htop : destination [] common = []
      · rw [htop] at hlength ⊢
        rw [List.eq_nil_of_length_eq_zero (Nat.le_zero.mp hlength)]
        exact iff_of_true rfl (climbs_of_eq_nil rfl)
      · have hpos := List.length_pos_iff.mpr htop
        exact destination_eq_iff_climbs hahead (by omega)
    · rw [destination_ups_of_names hbehind hup]
      exact iff_of_true rfl (.inl hup)

/-! ## Source paths -/

/-- Does a path lead from the root to the file, if nothing is looked up on
the way? -/
def Denotes (currentDir root file path : String) : Prop :=
  collapse (join (absolute currentDir root) path) = collapse (absolute currentDir file)

instance (currentDir root file path : String) : Decidable (Denotes currentDir root file path) :=
  inferInstanceAs (Decidable (_ = _))

theorem withSlashes_of_not_mem (h : '\\' ∉ path.toList) : withSlashes path = path := by
  have hkeep : ∀ c ∈ path.toList, (if c = '\\' then '/' else c) = c :=
    fun c hc => if_neg (ne_of_mem_of_not_mem hc h)
  rw [withSlashes, List.map_congr_left hkeep, List.map_id', String.ofList_toList]

end Path

/-- What a source file and the root have in common, and what is left of
each. -/
def Project.Diverges (project : Project) (pos : SourcePos) (front ahead behind : List Component) :
    Prop :=
  Path.Diverges (Path.components (Path.absolute project.currentDir pos.file))
    (Path.components (Path.absolute project.currentDir project.root)) front ahead behind

/-- **Where a printed source path leads.** Of a file whose absolute form has
no backslash, the path that is printed leads from the root to the file,
unless the root goes up again somewhere after the common front. Then it
leads elsewhere, unless the root does so right where the two part, or what
is left of the file comes to the top on its way. -/
theorem source_path_leads_iff (project : Project) (pos : SourcePos)
    (hdir : Path.isAbsolute project.currentDir = true) (hroot : project.root ≠ "")
    (hfile : pos.file ≠ "")
    (hplain : '\\' ∉ (Path.absolute project.currentDir pos.file).toList) :
    project.sourceTag pos = "@source " ++ Path.fromRoot project.currentDir project.root pos.file
        ++ ":" ++ Nat.repr pos.line ++ "\n" ∧
      (∃ front ahead behind, project.Diverges pos front ahead behind) ∧
      ∀ front ahead behind, project.Diverges pos front ahead behind →
        (Path.Denotes project.currentDir project.root pos.file
            (Path.fromRoot project.currentDir project.root pos.file) ↔
          Path.Unreached ahead behind ∨ .up ∉ behind ∨
            Path.Climbs (Path.destination [] front) ahead) := by
  refine ⟨rfl, Path.exists_diverges _ _, fun front ahead behind h => ?_⟩
  have hbackslash : ¬ Path.Joining '\\' := by decide
  rw [Path.Denotes, Path.fromRoot,
    Path.withSlashes_of_not_mem (Path.not_mem_relative hbackslash hplain _)]
  exact h.leads_iff (Path.isAbsolute_absolute hdir hfile) (Path.isAbsolute_absolute hdir hroot)

namespace Aside

/-- A project whose root is written with a way down and up again. -/
def project : Project :=
  { program := {}, surface := {}, currentDir := "/", root := "work/build/../lib" }

def pos : SourcePos := ⟨"work/src/A.java", 1, 0⟩

theorem diverges : project.Diverges pos [.root, .name "work"]
    [.name "src", .name "A.java"] [.name "build", .up, .name "lib"] where
  file_eq := by decide
  root_eq := by decide
  differ := by simp

/-- One `..` would do, and three are printed. -/
theorem source_path_leads_aside :
    project.sourceTag pos = "@source ../../../src/A.java:1\n" ∧
      ¬ Path.Denotes "/" "work/build/../lib" "work/src/A.java" "../../../src/A.java" ∧
      Path.Denotes "/" "work/build/../lib" "work/src/A.java" "../src/A.java" := by
  obtain ⟨htag, -, hleads⟩ := source_path_leads_iff project pos (by decide) (by decide) (by decide)
    (by decide)
  have hpath : Path.fromRoot project.currentDir project.root pos.file = "../../../src/A.java" := by
    decide +kernel
  rw [hpath] at htag hleads
  refine ⟨htag, fun hdenotes => ?_, by decide +kernel⟩
  exact absurd ((hleads _ _ _ diverges).mp hdenotes) (by decide)

end Aside

end ApiStubs
