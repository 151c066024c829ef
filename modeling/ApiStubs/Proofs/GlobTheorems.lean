/-
ApiStubs.Proofs.GlobTheorems — what a pattern matches.

The pieces of a component match a name if the name can be cut into texts,
one for each piece (`Matches`). The matcher does not try the cuts: it
keeps the ends of the name that can be left after each piece, and any text
leaves the ends of the longest of them. `matchesChars_iff` says that this
finds a cut wherever there is one.

`Leads` says where the parts of a pattern lead from a directory, one step
for each part, with no list of directories and no order. The walk finds
exactly that (`mem_walk_iff`), and so `Finds` says what a whole pattern
matches (`mem_paths_iff`).

The walk goes down at most as many levels as there are entries. Where
every name is one that a path can have between its slashes, each level
takes an entry of its own, and the bound cuts nothing off
(`mem_directoriesFrom_length`).
-/
import Mathlib.Data.List.Infix
import Mathlib.Data.List.Perm.Subperm
import ApiStubs.Files.Glob
import ApiStubs.Proofs.SourcePathTheorems

namespace ApiStubs.Glob

/-! ## Names -/

/-- Is this a text that the piece stands for? -/
def Piece.Takes : Piece → List Char → Prop
  | .char d, text => text = [d]
  | .anyChar, text => ∃ c, text = [c]
  | .anyText, _ => True
  | .oneOf ranges, text => ∃ c, text = [c] ∧ ∃ r ∈ ranges, r.first ≤ c ∧ c ≤ r.last
  | .noneOf ranges, text => ∃ c, text = [c] ∧ ¬ ∃ r ∈ ranges, r.first ≤ c ∧ c ≤ r.last

/-- Can the text be cut into texts that the pieces stand for, one after the
other? -/
def Matches (pieces : List Piece) (cs : List Char) : Prop :=
  ∃ texts, List.Forall₂ Piece.Takes pieces texts ∧ texts.flatten = cs

theorem matches_nil {cs : List Char} : Matches [] cs ↔ cs = [] := by
  constructor
  · rintro ⟨_, _ | _, rfl⟩
    rfl
  · rintro rfl
    exact ⟨[], .nil, rfl⟩

theorem matches_cons {piece : Piece} {pieces : List Piece} {cs : List Char} :
    Matches (piece :: pieces) cs ↔
      ∃ text rest, cs = text ++ rest ∧ piece.Takes text ∧ Matches pieces rest := by
  constructor
  · rintro ⟨_, _ | ⟨htext, htexts⟩, rfl⟩
    exact ⟨_, _, rfl, htext, _, htexts, rfl⟩
  · rintro ⟨text, _, rfl, htext, texts, htexts, rfl⟩
    exact ⟨text :: texts, .cons htext htexts, rfl⟩

theorem inRanges_iff {ranges : List CharRange} {c : Char} :
    inRanges ranges c = true ↔ ∃ r ∈ ranges, r.first ≤ c ∧ c ≤ r.last := by
  simp [inRanges]

/-- All pieces but any text stand for one character. -/
theorem Piece.takes_iff {piece : Piece} (h : piece ≠ .anyText) {text : List Char} :
    piece.Takes text ↔ ∃ c, text = [c] ∧ piece.matchesChar c = true := by
  cases piece with
  | anyText => exact absurd rfl h
  | char d => simp [Takes, matchesChar]
  | anyChar => simp [Takes, matchesChar]
  | oneOf ranges => simp [Takes, matchesChar, inRanges_iff]
  | noneOf ranges => simp [Takes, matchesChar, ← inRanges_iff]

/-- Ends of one text, the longest first. -/
def Nested (ends : List (List Char)) : Prop :=
  ends.Pairwise fun longer shorter => shorter <:+ longer

theorem mem_endings {rest cs : List Char} : rest ∈ endings cs ↔ rest <:+ cs := by
  induction cs with
  | nil => simp [endings]
  | cons c cs ih => rw [endings, List.mem_cons, ih, List.suffix_cons_iff]

theorem nested_endings (cs : List Char) : Nested (endings cs) := by
  induction cs with
  | nil => exact List.pairwise_singleton _ _
  | cons c cs ih =>
    refine .cons (fun rest hrest => ?_) ih
    exact (mem_endings.mp hrest).trans (List.suffix_cons c cs)

/-- What is left after a piece that stands for one character. -/
theorem leftAfter_of_ne {ends : List (List Char)} {piece : Piece} (h : piece ≠ .anyText) :
    leftAfter ends piece = ends.filterMap fun
      | c :: cs => if piece.matchesChar c then some cs else none
      | [] => none := by
  cases piece with
  | anyText => exact absurd rfl h
  | _ => rfl

/-- What is left after a piece is left of one of the ends before it. -/
theorem mem_leftAfter {ends : List (List Char)} (hnested : Nested ends) {piece : Piece}
    {rest : List Char} :
    rest ∈ leftAfter ends piece ↔ ∃ text, piece.Takes text ∧ text ++ rest ∈ ends := by
  by_cases hpiece : piece = .anyText
  · subst hpiece
    cases ends with
    | nil => simp [leftAfter]
    | cons longest ends =>
      show rest ∈ endings longest ↔ _
      rw [mem_endings]
      constructor
      · rintro ⟨text, rfl⟩
        exact ⟨text, trivial, List.mem_cons_self⟩
      · rintro ⟨text, -, hmem⟩
        have hrest : rest <:+ text ++ rest := List.suffix_append text rest
        rcases List.mem_cons.mp hmem with heq | hmem
        · exact heq ▸ hrest
        · exact hrest.trans (List.rel_of_pairwise_cons hnested hmem)
  · simp only [leftAfter_of_ne hpiece, List.mem_filterMap, Piece.takes_iff hpiece]
    constructor
    · rintro ⟨cs, hcs, hrest⟩
      cases cs with
      | nil => cases hrest
      | cons c cs =>
        simp only [Option.ite_none_right_eq_some, Option.some.injEq] at hrest
        obtain ⟨hc, rfl⟩ := hrest
        exact ⟨[c], ⟨c, rfl, hc⟩, hcs⟩
    · rintro ⟨_, ⟨c, rfl, hc⟩, hmem⟩
      exact ⟨c :: rest, hmem, by simp [hc]⟩

theorem nested_leftAfter {ends : List (List Char)} (hnested : Nested ends) (piece : Piece) :
    Nested (leftAfter ends piece) := by
  by_cases hpiece : piece = .anyText
  · subst hpiece
    cases ends with
    | nil => exact .nil
    | cons longest ends => exact nested_endings longest
  · rw [leftAfter_of_ne hpiece, Nested, List.pairwise_filterMap]
    refine hnested.imp ?_
    intro longer shorter hends left hleft left' hleft'
    cases longer with
    | nil => cases hleft
    | cons c cs =>
      cases shorter with
      | nil => cases hleft'
      | cons c' cs' =>
        simp only [Option.ite_none_right_eq_some, Option.some.injEq] at hleft hleft'
        obtain ⟨-, rfl⟩ := hleft
        obtain ⟨-, rfl⟩ := hleft'
        rcases List.suffix_cons_iff.mp hends with heq | hsuffix
        · exact (List.cons.inj heq).2 ▸ List.suffix_refl _
        · exact (List.suffix_cons c' cs').trans hsuffix

/-- The run over all pieces leaves nothing of one of the ends exactly if
the pieces match that end. -/
theorem nil_mem_foldl_leftAfter (pieces : List Piece) {ends : List (List Char)}
    (hnested : Nested ends) :
    [] ∈ pieces.foldl leftAfter ends ↔ ∃ cs ∈ ends, Matches pieces cs := by
  induction pieces generalizing ends with
  | nil => simp [matches_nil]
  | cons piece pieces ih =>
    rw [List.foldl_cons, ih (nested_leftAfter hnested piece)]
    simp only [mem_leftAfter hnested, matches_cons]
    constructor
    · rintro ⟨rest, ⟨text, htext, hmem⟩, hrest⟩
      exact ⟨_, hmem, text, rest, rfl, htext, hrest⟩
    · rintro ⟨_, hmem, text, rest, rfl, htext, hrest⟩
      exact ⟨rest, ⟨text, htext, hmem⟩, hrest⟩

/-- **The matcher finds a cut wherever there is one.** -/
theorem matchesChars_iff {pieces : List Piece} {cs : List Char} :
    matchesChars pieces cs = true ↔ Matches pieces cs := by
  have hnested : Nested [cs] := List.pairwise_singleton _ _
  have hany : matchesChars pieces cs = true ↔ [] ∈ pieces.foldl leftAfter [cs] := by
    simp [matchesChars]
  rw [hany, nil_mem_foldl_leftAfter pieces hnested]
  simp

/-! ## One component -/

/-- Pieces that have no wildcard are the characters of a name. -/
theorem literal?_eq_some_iff {pieces : List Piece} {chars : List Char} :
    literal? pieces = some chars ↔ pieces = chars.map .char := by
  induction pieces generalizing chars with
  | nil => cases chars <;> simp [literal?]
  | cons piece pieces ih =>
    cases piece with
    | char c => cases chars <;> simp [literal?, ih, and_comm]
    | _ => cases chars <;> simp [literal?]

/-- Is one of the pieces a wildcard? -/
def Wild (pieces : List Piece) : Prop :=
  ∀ name : String, pieces ≠ name.toList.map .char

theorem literal?_eq_none_iff {pieces : List Piece} : literal? pieces = none ↔ Wild pieces := by
  rw [Option.eq_none_iff_forall_ne_some]
  constructor
  · exact fun h name heq => h _ (literal?_eq_some_iff.mpr heq)
  · intro h chars hchars
    refine h (String.ofList chars) ?_
    rw [String.toList_ofList]
    exact literal?_eq_some_iff.mp hchars

variable {fs : FileSystem} {pieces : List Piece} {parts rest : List Part} {isLast : Bool}
  {dir path pattern : String}

/-- Is this an entry of the directory under a name that the pieces match?
Where more parts follow it has to be a directory. -/
def Listed (fs : FileSystem) (pieces : List Piece) (isLast : Bool) (dir path : String) : Prop :=
  ∃ name ∈ fs.list dir, Matches pieces name.toList ∧ below dir name = path ∧
    (isLast = false → fs.isDirectory path = true)

theorem mem_matching : path ∈ matching fs pieces isLast dir ↔ Listed fs pieces isLast dir path := by
  have hlast : (isLast || fs.isDirectory path) = true ↔
      (isLast = false → fs.isDirectory path = true) := by
    cases isLast <;> simp
  simp only [matching, List.mem_filter, List.mem_map, matchesName, matchesChars_iff, hlast, Listed]
  constructor
  · rintro ⟨⟨name, ⟨hmem, hmatches⟩, hpath⟩, hdirectory⟩
    exact ⟨name, hmem, hmatches, hpath, hdirectory⟩
  · rintro ⟨name, hmem, hmatches, hpath, hdirectory⟩
    exact ⟨⟨name, ⟨hmem, hmatches⟩, hpath⟩, hdirectory⟩

theorem mem_dotEntries :
    path ∈ dotEntries pieces dir ↔ pieces.head? = some (.char '.') ∧
      ∃ name, isDotEntry name = true ∧ Matches pieces name.toList ∧ Path.join dir name = path := by
  have hdots : ∀ name, name ∈ ["..", "."] ↔ isDotEntry name = true := by
    simp [isDotEntry, or_comm]
  unfold dotEntries
  split
  · next hfront =>
    simp only [hfront, true_and, List.mem_map, List.mem_filter, hdots, matchesName,
      matchesChars_iff, and_assoc]
  · next hfront => simp [hfront]

/-- Where the pieces of a component lead from a directory. A name without
wildcards is looked up. Wildcards match the entries of the directory, and
with a dot in front `.` and `..` too. -/
inductive Step (fs : FileSystem) (pieces : List Piece) (isLast : Bool) (dir : String) :
    String → Prop
  | dots {name : String} (literal : pieces = name.toList.map .char)
    (dots : isDotEntry name = true) (isDirectory : fs.isDirectory dir = true) :
    Step fs pieces isLast dir (below dir name)
  | name {name : String} (literal : pieces = name.toList.map .char)
    (noDots : isDotEntry name = false) (pathExists : fs.pathExists (below dir name) = true) :
    Step fs pieces isLast dir (below dir name)
  | wildDots {name : String} (wild : Wild pieces) (isDirectory : fs.isDirectory dir = true)
    (front : pieces.head? = some (.char '.')) (dots : isDotEntry name = true)
    (fits : Matches pieces name.toList) : Step fs pieces isLast dir (Path.join dir name)
  | wildName {path : String} (wild : Wild pieces) (isDirectory : fs.isDirectory dir = true)
    (listed : Listed fs pieces isLast dir path) : Step fs pieces isLast dir path

theorem mem_step_of_literal {name : String} (h : pieces = name.toList.map .char) :
    path ∈ step fs pieces isLast dir ↔
      (if isDotEntry name then fs.isDirectory dir else fs.pathExists (below dir name)) = true ∧
        path = below dir name := by
  simp only [step, literal?_eq_some_iff.mpr h, String.ofList_toList, List.mem_ite_nil_right,
    List.mem_singleton]

theorem mem_step_of_wild (h : Wild pieces) :
    path ∈ step fs pieces isLast dir ↔ fs.isDirectory dir = true ∧
      (path ∈ dotEntries pieces dir ∨ Listed fs pieces isLast dir path) := by
  simp only [step, literal?_eq_none_iff.mpr h, List.mem_ite_nil_right, List.mem_append,
    mem_matching]

theorem mem_step : path ∈ step fs pieces isLast dir ↔ Step fs pieces isLast dir path := by
  constructor
  · intro hpath
    by_cases hwild : Wild pieces
    · obtain ⟨hdirectory, hpath | hlisted⟩ := (mem_step_of_wild hwild).mp hpath
      · obtain ⟨hfront, name, hdots, hfits, rfl⟩ := mem_dotEntries.mp hpath
        exact .wildDots hwild hdirectory hfront hdots hfits
      · exact .wildName hwild hdirectory hlisted
    · obtain ⟨name, hname⟩ : ∃ name : String, pieces = name.toList.map .char := by
        simpa [Wild] using hwild
      obtain ⟨hfound, rfl⟩ := (mem_step_of_literal hname).mp hpath
      cases hdots : isDotEntry name with
      | true => exact .dots hname hdots (by simpa [hdots] using hfound)
      | false => exact .name hname hdots (by simpa [hdots] using hfound)
  · intro hstep
    cases hstep with
    | dots literal dots isDirectory =>
      exact (mem_step_of_literal literal).mpr ⟨by simp [dots, isDirectory], rfl⟩
    | name literal noDots pathExists =>
      exact (mem_step_of_literal literal).mpr ⟨by simp [noDots, pathExists], rfl⟩
    | wildDots wild isDirectory front dots fits =>
      exact (mem_step_of_wild wild).mpr
        ⟨isDirectory, .inl (mem_dotEntries.mpr ⟨front, _, dots, fits, rfl⟩)⟩
    | wildName wild isDirectory listed =>
      exact (mem_step_of_wild wild).mpr ⟨isDirectory, .inr listed⟩

/-! ## Directories below -/

/-- Does some number of steps lead from a directory down to another? -/
inductive Descends (fs : FileSystem) : Nat → String → String → Prop
  | here {dir : String} : Descends fs 0 dir dir
  | into {levels : Nat} {dir name path : String} (mem : name ∈ fs.list dir)
    (isDirectory : fs.isDirectory (below dir name) = true)
    (further : Descends fs levels (below dir name) path) : Descends fs (levels + 1) dir path

/-- What is found from the subdirectories of a directory is one level
further down. -/
theorem mem_flatMap_subdirectories {found : String → List String} {depth : Nat}
    (h : ∀ dir, path ∈ found dir ↔ ∃ levels ≤ depth, Descends fs levels dir path) :
    path ∈ (((fs.list dir).map (below dir)).filter fs.isDirectory).flatMap found ↔
      ∃ levels ≤ depth, Descends fs (levels + 1) dir path := by
  simp only [List.mem_flatMap, List.mem_filter, List.mem_map, h]
  constructor
  · rintro ⟨_, ⟨⟨name, hmem, rfl⟩, hdirectory⟩, levels, hle, hfurther⟩
    exact ⟨levels, hle, .into hmem hdirectory hfurther⟩
  · rintro ⟨levels, hle, _ | ⟨hmem, hdirectory, hfurther⟩⟩
    exact ⟨_, ⟨⟨_, hmem, rfl⟩, hdirectory⟩, levels, hle, hfurther⟩

theorem descends_zero : Descends fs 0 dir path ↔ path = dir := by
  constructor
  · rintro ⟨⟩
    rfl
  · rintro rfl
    exact .here

theorem mem_directoriesFrom {depth : Nat} :
    path ∈ directoriesFrom fs depth dir ↔ ∃ levels ≤ depth, Descends fs levels dir path := by
  induction depth generalizing dir with
  | zero => simp [directoriesFrom, descends_zero]
  | succ depth ih =>
    have hlevels := Nat.or_exists_add_one
      (p := fun levels => levels ≤ depth + 1 ∧ Descends fs levels dir path)
    rw [directoriesFrom, List.mem_cons, mem_flatMap_subdirectories fun _ => ih, ← hlevels]
    simp [descends_zero]

theorem mem_drop_directoriesFrom {depth : Nat} :
    path ∈ (directoriesFrom fs depth dir).drop 1 ↔
      ∃ levels, 0 < levels ∧ levels ≤ depth ∧ Descends fs levels dir path := by
  cases depth with
  | zero => simp [directoriesFrom]
  | succ depth =>
    have hlevels := Nat.or_exists_add_one
      (p := fun levels => 0 < levels ∧ levels ≤ depth + 1 ∧ Descends fs levels dir path)
    rw [directoriesFrom, List.drop_succ_cons, List.drop_zero,
      mem_flatMap_subdirectories fun _ => mem_directoriesFrom, ← hlevels]
    simp

/-! ## The bound on the levels -/

/-- Can every name stand between the slashes of a path? -/
def NamesFit (fs : FileSystem) : Prop :=
  ∀ item ∈ fs.entries, ∀ name ∈ item.1, (Component.name name).IsPiece

/-- The place that a path spells, whether it leads there or not. -/
def spelled (fs : FileSystem) (path : String) : Location :=
  Path.destination (fs.start path) (Path.pieces path)

theorem isPiece_of_mem_list (hfit : NamesFit fs) {name : String} (h : name ∈ fs.list dir) :
    (Component.name name).IsPiece := by
  unfold FileSystem.list at h
  split at h
  · split at h
    · obtain ⟨item, hitem, hname⟩ := List.mem_filterMap.mp h
      simp only [Option.ite_none_right_eq_some] at hname
      exact hfit item hitem name (List.mem_of_getLast? hname.2)
    · cases h
  · cases h

theorem isDirectoryAt_spelled (h : fs.isDirectory path = true) :
    fs.isDirectoryAt (spelled fs path) = true := by
  unfold FileSystem.isDirectory FileSystem.find? at h
  cases hplace : fs.locate? path with
  | none => simp [hplace] at h
  | some place =>
    have hspelled : place = spelled fs path := by
      rw [FileSystem.locate?_eq_some hplace, spelled, Path.pieces, FileSystem.destination_split]
    rw [hplace, Option.bind_some, hspelled] at h
    exact h

/-- One level down, the place is longer by the name. -/
theorem spelled_below {name : String} (hname : (Component.name name).IsPiece) :
    spelled fs (below dir name) = spelled fs dir ++ [name] := by
  have hslash : '/' ∉ name.toList := hname.noSlash
  have hpiece : Path.piece? name = some (.name name) := hname.piece
  have hrelative : Path.isAbsolute name = false :=
    Bool.eq_false_iff.mpr fun habsolute =>
      hslash (List.mem_of_head? (Path.isAbsolute_iff.mp habsolute))
  have hpieces : Path.pieces name = [.name name] := by
    simp [Path.pieces, Text.split, Text.splitChars_eq_singleton hslash, hpiece]
  unfold below
  split
  · next hhere =>
    have hdir : spelled fs dir = fs.currentDir := by
      rw [spelled, Path.pieces, FileSystem.destination_split, hhere]
      rfl
    rw [hdir, spelled, hpieces, FileSystem.start, hrelative]
    rfl
  · have hstart : fs.start (Path.join dir name) = fs.start dir := by
      rw [FileSystem.start, FileSystem.start, Path.isAbsolute_join, hrelative, Bool.false_or]
    rw [spelled, hstart, Path.pieces_join hrelative, hpieces, Path.destination, List.foldl_append]
    rfl

/-- Each level on the way down is a directory, one name longer than the one
above it. -/
theorem Descends.exists_names (hfit : NamesFit fs) {levels : Nat}
    (h : Descends fs levels dir path) :
    ∃ names : List String, names.length = levels ∧ ∀ k < levels,
      fs.isDirectoryAt (spelled fs dir ++ names.take (k + 1)) = true := by
  induction h with
  | here => exact ⟨[], rfl, nofun⟩
  | @into levels dir name path mem isDirectory _ ih =>
    obtain ⟨names, hlength, hnames⟩ := ih
    have hspelled : spelled fs (Glob.below dir name) = spelled fs dir ++ [name] :=
      spelled_below (isPiece_of_mem_list hfit mem)
    refine ⟨name :: names, by rw [List.length_cons, hlength], fun k hk => ?_⟩
    cases k with
    | zero =>
      have hdirectory := isDirectoryAt_spelled isDirectory
      rwa [hspelled] at hdirectory
    | succ k =>
      have hdirectory := hnames k (Nat.lt_of_succ_lt_succ hk)
      rwa [hspelled, List.append_assoc] at hdirectory

theorem mem_entries_of_isDirectoryAt {location : Location} (h : fs.isDirectoryAt location = true)
    (hbelow : location ≠ []) : location ∈ fs.entries.map (·.1) := by
  unfold FileSystem.isDirectoryAt FileSystem.entry? at h
  rw [if_neg hbelow] at h
  cases hlookup : fs.entries.lookup location with
  | none => simp [hlookup] at h
  | some entry =>
    obtain ⟨before, after, hentries, -⟩ := List.lookup_eq_some_iff.mp hlookup
    simp [hentries]

theorem Descends.levels_le (hfit : NamesFit fs) {levels : Nat} (h : Descends fs levels dir path) :
    levels ≤ fs.entries.length := by
  obtain ⟨names, hlength, hnames⟩ := h.exists_names hfit
  let place := fun k => spelled fs dir ++ names.take (k + 1)
  have hlengths : ∀ k < levels, (place k).length = (spelled fs dir).length + (k + 1) := by
    intro k hk
    rw [List.length_append, List.length_take]
    omega
  have hsubset : (List.range levels).map place ⊆ fs.entries.map (·.1) := by
    intro location hlocation
    obtain ⟨k, hk, rfl⟩ := List.mem_map.mp hlocation
    have hk : k < levels := List.mem_range.mp hk
    refine mem_entries_of_isDirectoryAt (hnames k hk) (List.ne_nil_of_length_pos ?_)
    rw [hlengths k hk]
    omega
  have hnodup : ((List.range levels).map place).Nodup := by
    refine List.Nodup.map_on (fun j hj k hk hsame => ?_) List.nodup_range
    have hj := hlengths j (List.mem_range.mp hj)
    have hk := hlengths k (List.mem_range.mp hk)
    rw [hsame] at hj
    omega
  simpa using (hnodup.subperm hsubset).length_le

/-- **All directories below are found**, however deep they are. -/
theorem mem_directoriesFrom_length (hfit : NamesFit fs) :
    path ∈ directoriesFrom fs fs.entries.length dir ↔ ∃ levels, Descends fs levels dir path := by
  rw [mem_directoriesFrom]
  exact exists_congr fun levels => and_iff_right_of_imp (Descends.levels_le hfit)

/-! ## All components -/

/-- Where the parts of a pattern lead from a directory. `**` goes down to
any directory, the first one included unless nothing follows, and what
follows it is matched against the entries there. -/
inductive Leads (fs : FileSystem) : List Part → String → String → Prop
  | here {path : String} : Leads fs [] path path
  | component {pieces : List Piece} {rest : List Part} {dir next path : String}
    (step : Step fs pieces rest.isEmpty dir next) (further : Leads fs rest next path) :
    Leads fs (.pieces pieces :: rest) dir path
  | repeated {rest : List Part} {dir path : String}
    (once : Leads fs (.directories :: rest) dir path) :
    Leads fs (.directories :: .directories :: rest) dir path
  | deeper {levels : Nat} {dir path : String} (some : 0 < levels)
    (bound : levels ≤ fs.entries.length) (descends : Descends fs levels dir path) :
    Leads fs [.directories] dir path
  | within {levels : Nat} {pieces : List Piece} {rest : List Part} {dir sub next path : String}
    (bound : levels ≤ fs.entries.length) (descends : Descends fs levels dir sub)
    (listed : Listed fs pieces rest.isEmpty sub next) (further : Leads fs rest next path) :
    Leads fs (.directories :: .pieces pieces :: rest) dir path

/-- **The walk finds where the parts lead**, from any of its directories. -/
theorem mem_walk_iff {dirs : List String} :
    path ∈ walk fs parts dirs ↔ ∃ dir ∈ dirs, Leads fs parts dir path := by
  fun_induction walk fs parts dirs with
  | case1 dirs =>
    constructor
    · exact fun h => ⟨path, h, .here⟩
    · rintro ⟨dir, hdir, hleads⟩
      cases hleads with
      | here => exact hdir
  | case2 dirs =>
    simp only [List.mem_flatMap, mem_drop_directoriesFrom]
    constructor
    · rintro ⟨dir, hdir, levels, hpos, hle, hdescends⟩
      exact ⟨dir, hdir, .deeper hpos hle hdescends⟩
    · rintro ⟨dir, hdir, hleads⟩
      cases hleads with
      | deeper hpos hle hdescends => exact ⟨dir, hdir, _, hpos, hle, hdescends⟩
  | case3 rest dirs ih =>
    rw [ih]
    constructor
    · rintro ⟨dir, hdir, hleads⟩
      exact ⟨dir, hdir, .repeated hleads⟩
    · rintro ⟨dir, hdir, hleads⟩
      cases hleads with
      | repeated hleads => exact ⟨dir, hdir, hleads⟩
  | case4 pieces rest dirs reached =>
    rename_i ih
    simp only [ih, List.mem_flatMap, reached, List.mem_eraseDups, mem_directoriesFrom,
      mem_matching]
    constructor
    · rintro ⟨next, ⟨sub, ⟨dir, hdir, levels, hle, hdescends⟩, hlisted⟩, hfurther⟩
      exact ⟨dir, hdir, .within hle hdescends hlisted hfurther⟩
    · rintro ⟨dir, hdir, hleads⟩
      cases hleads with
      | within hle hdescends hlisted hfurther =>
        exact ⟨_, ⟨_, ⟨dir, hdir, _, hle, hdescends⟩, hlisted⟩, hfurther⟩
  | case5 pieces rest dirs ih =>
    simp only [ih, List.mem_eraseDups, List.mem_flatMap, mem_step]
    constructor
    · rintro ⟨next, ⟨dir, hdir, hstep⟩, hfurther⟩
      exact ⟨dir, hdir, .component hstep hfurther⟩
    · rintro ⟨dir, hdir, hleads⟩
      cases hleads with
      | component hstep hfurther => exact ⟨_, ⟨dir, hdir, hstep⟩, hfurther⟩

/-! ## Whole patterns -/

/-- Does the pattern match this path? Its parts lead there, and if it ends
with a slash there is a directory. -/
structure Finds (fs : FileSystem) (pattern path : String) : Prop where
  leads : ∃ parts, parts? pattern = some parts ∧ Leads fs parts (startOf pattern) path
  isDirectory : Path.endsWithSlash pattern = true → fs.isDirectory path = true

/-- **A well-formed pattern gives what it matches.** -/
theorem mem_paths_iff {paths : List String} (h : paths? fs pattern = some paths) :
    path ∈ paths ↔ Finds fs pattern path := by
  obtain ⟨parts, hparts, rfl⟩ := Option.map_eq_some_iff.mp h
  have hslash : (!Path.endsWithSlash pattern || fs.isDirectory path) = true ↔
      (Path.endsWithSlash pattern = true → fs.isDirectory path = true) := by
    cases Path.endsWithSlash pattern <;> simp
  simp only [List.mem_filter, mem_walk_iff, List.mem_singleton, exists_eq_left, hslash]
  constructor
  · rintro ⟨hleads, hdirectory⟩
    exact ⟨⟨parts, hparts, hleads⟩, hdirectory⟩
  · rintro ⟨⟨parts', hparts', hleads⟩, hdirectory⟩
    cases hparts.symm.trans hparts'
    exact ⟨hleads, hdirectory⟩

theorem exists_paths_iff :
    (∃ paths, paths? fs pattern = some paths) ↔ ∃ parts, parts? pattern = some parts := by
  simp [paths?]

end ApiStubs.Glob
