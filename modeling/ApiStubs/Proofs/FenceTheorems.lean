/-
ApiStubs.Proofs.FenceTheorems — what a fence keeps of the code in it.

The code of a fence is cut out of a comment, where every line comes after
a marker and one space. Rendering takes that space away, in two steps that
do not fit together: the body is trimmed as a whole, and then each line
after the first one loses a space. Lines after the first keep whatever
else they are indented by. The first one loses all of it to the trimming,
so the fence shows the lines as they were written exactly if the first of
them is not indented (`fence_keeps_lines_iff`).
-/
import Mathlib.Data.List.TakeWhile
import ApiStubs.Proofs.RenderMachineTheorems

namespace ApiStubs

namespace Text

/-! ## Lines -/

theorem join_cons_cons (sep s t : String) (rest : List String) :
    join sep (s :: t :: rest) = s ++ sep ++ join sep (t :: rest) := by
  simp only [join]

theorem join_cons (sep s : String) (rest : List String) :
    join sep (s :: rest) = s ++ concat (rest.map (sep ++ ·)) := by
  induction rest generalizing s with
  | nil => simp [join, concat]
  | cons t rest ih =>
    rw [join_cons_cons, ih t]
    simp [concat, String.append_assoc]

theorem splitChars_eq_singleton {sep : Char} : ∀ {cs : List Char}, sep ∉ cs →
    splitChars sep cs = [cs]
  | [], _ => rfl
  | c :: cs, h => by
    have hc : c ≠ sep := fun heq => h (heq ▸ List.mem_cons_self)
    have hcs : sep ∉ cs := fun hmem => h (List.mem_cons_of_mem _ hmem)
    rw [splitChars, if_neg hc, splitChars_eq_singleton hcs]

theorem splitChars_append {sep : Char} (rest : List Char) : ∀ {cs : List Char}, sep ∉ cs →
    splitChars sep (cs ++ sep :: rest) = cs :: splitChars sep rest
  | [], _ => by rw [List.nil_append, splitChars, if_pos rfl]
  | c :: cs, h => by
    have hc : c ≠ sep := fun heq => h (heq ▸ List.mem_cons_self)
    have hcs : sep ∉ cs := fun hmem => h (List.mem_cons_of_mem _ hmem)
    rw [List.cons_append, splitChars, if_neg hc, splitChars_append rest hcs]

/-- Lines that are joined come apart again. -/
theorem split_join {sep : Char} : ∀ {lines : List String}, lines ≠ [] →
    (∀ line ∈ lines, sep ∉ line.toList) → split sep (join (String.ofList [sep]) lines) = lines
  | [], h, _ => absurd rfl h
  | [line], _, h => by
    rw [join, split, splitChars_eq_singleton (h line List.mem_cons_self)]
    simp
  | line :: next :: rest, _, h => by
    obtain ⟨hline, hrest⟩ := List.forall_mem_cons.mp h
    have ih := split_join (List.cons_ne_nil next rest) hrest
    rw [split] at ih
    rw [join_cons_cons, split, String.append_assoc, String.toList_append, String.toList_append,
      String.toList_ofList, List.singleton_append, splitChars_append _ hline, List.map_cons, ih,
      String.ofList_toList]

theorem last?_join (sep : String) {line : String} {c : Char} : ∀ {lines : List String},
    lines.getLast? = some line → last? line = some c → last? (join sep lines) = some c
  | [], h, _ => by cases h
  | [_], h, hc => by cases h; exact hc
  | first :: next :: rest, h, hc => by
    have hlast : (next :: rest).getLast? = some line := by simpa using h
    have ih := last?_join sep hlast hc
    rw [last?] at ih
    rw [join_cons_cons, last?, String.toList_append, List.getLast?_append, ih]
    rfl

/-! ## Trimming -/

/-- Is there nothing but blanks in the text? -/
def Blank (s : String) : Prop := ∀ c ∈ s.toList, isBlank c = true

instance (s : String) : Decidable (Blank s) :=
  decidable_of_iff (s.toList.all isBlank = true) List.all_eq_true

/-- What is left of a text without the blanks at its start. -/
def dedent (s : String) : String := String.ofList (trimLeft s.toList)

theorem trimLeft_eq_self {cs : List Char} (h : ∀ c ∈ cs.head?, isBlank c = false) :
    trimLeft cs = cs := by
  cases cs with
  | nil => rfl
  | cons c cs => exact List.dropWhile_cons_of_neg (by simp [h c rfl])

theorem head?_trimLeft (cs : List Char) : ∀ c ∈ (trimLeft cs).head?, isBlank c = false := by
  intro c hc
  have hnot := List.head?_dropWhile_not isBlank cs
  rw [trimLeft, Option.mem_def] at hc
  rw [hc] at hnot
  exact hnot

/-- Trimming leaves what stands between blanks. -/
theorem trim_eq {s : String} (before : List Char) {middle : List Char} (after : List Char)
    (hs : s.toList = before ++ middle ++ after) (hbefore : ∀ c ∈ before, isBlank c = true)
    (hafter : ∀ c ∈ after, isBlank c = true) (hmiddle : middle ≠ [])
    (hfirst : ∀ c ∈ middle.head?, isBlank c = false)
    (hlast : ∀ c ∈ middle.getLast?, isBlank c = false) : trim s = String.ofList middle := by
  have hleft : trimLeft s.toList = middle ++ after := by
    rw [hs, List.append_assoc, trimLeft, List.dropWhile_append_of_pos hbefore]
    refine trimLeft_eq_self fun c hc => hfirst c ?_
    rwa [List.head?_append_of_ne_nil _ hmiddle] at hc
  have hright : trimRight (middle ++ after) = middle := by
    rw [trimRight, List.reverse_append, trimLeft,
      List.dropWhile_append_of_pos fun c hc => hafter c (List.mem_reverse.mp hc)]
    have hself : trimLeft middle.reverse = middle.reverse := by
      refine trimLeft_eq_self fun c hc => hlast c ?_
      rwa [List.head?_reverse] at hc
    rw [trimLeft] at hself
    rw [hself, List.reverse_reverse]
  rw [trim, hleft, hright]

end Text

/-! ## Code in a comment -/

/-- The lines of a piece of code: the first and the last one are not
blank, and no blanks follow the last one. -/
structure CodeLines (lines : List String) : Prop where
  not_nil : lines ≠ []
  no_newline : ∀ line ∈ lines, '\n' ∉ line.toList
  first : ∀ line ∈ lines.head?, ¬ Text.Blank line
  last : ∀ line ∈ lines.getLast?, ¬ Text.Blank line
  no_trailing : ∀ line ∈ lines.getLast?, ∀ c ∈ Text.last? line, Text.isBlank c = false

/-- Code as it is cut out of a comment: on lines of its own, each of which
starts with the space that follows the comment marker. -/
def commented (lines : List String) : String :=
  "\n" ++ Text.join "\n" (lines.map (" " ++ ·)) ++ "\n"

/-- A fence around some code. -/
def fence (body : String) (selfClosing : Bool) : DocNode :=
  .element "pre" [] [.code body] selfClosing

/-- A fence in the output. -/
def fenced (lines : List String) : String :=
  "```lua\n" ++ Text.join "\n" lines ++ "\n```"

theorem renderNodes_fence (s : Setting) (body : String) (selfClosing : Bool) :
    renderNodes s [fence body selfClosing]
      = { text := "```lua\n" ++ reindent 0 (Text.trim body) ++ "\n```" } := by
  have hspaces : Text.spaces 0 = "" := rfl
  have hopening : "```lua" ++ fenceAttributes [] ++ "\n" ++ "" = "```lua\n" := rfl
  have hclosing : "\n" ++ "" ++ "```" = "\n```" := rfl
  have hindent : Fragment.writeIfFresh "" = Fragment.write "" :=
    funext fun fresh => by cases fresh <;> rfl
  simp only [renderNodes, renderAll, fence, DocNode.render, element, if_true, inlineLiteral,
    Place.fence, hspaces, hopening, hclosing, hindent, Fragment.append_empty,
    Fragment.write_append_write, String.empty_append]
  rfl

theorem continuation_zero (line : String) : continuation 0 (" " ++ line) = "\n" ++ line := by
  have hafter : Text.after " " (" " ++ line) = some line := by
    simp [Text.after, Text.afterChars]
  rw [continuation, hafter, Option.getD_some]
  by_cases hempty : line = ""
  · subst hempty; rfl
  · rw [if_neg (by simpa using hempty)]
    rfl

theorem reindent_join {first : String} {rest : List String} (hfirst : '\n' ∉ first.toList)
    (hrest : ∀ line ∈ rest, '\n' ∉ line.toList) :
    reindent 0 (Text.join "\n" (first :: rest.map (" " ++ ·)))
      = Text.join "\n" (first :: rest) := by
  have hlines : ∀ line ∈ first :: rest.map (" " ++ ·), '\n' ∉ line.toList := by
    refine List.forall_mem_cons.mpr ⟨hfirst, fun line hline => ?_⟩
    obtain ⟨inner, hinner, rfl⟩ := List.mem_map.mp hline
    simpa using hrest inner hinner
  have hsplit := Text.split_join (List.cons_ne_nil first (rest.map (" " ++ ·))) hlines
  rw [reindent, show ("\n" : String) = String.ofList ['\n'] from rfl, hsplit]
  simp only [List.map_map]
  rw [Text.join_cons]
  congr 3
  funext line
  exact continuation_zero line

/-! ## Trimmed code -/

/-- The lines with the first one not indented. -/
def dedentFirst : List String → List String
  | [] => []
  | first :: rest => Text.dedent first :: rest

/-- The code ends with a character that is not blank. -/
theorem CodeLines.last?_join {lines : List String} (h : CodeLines lines) :
    ∃ c, Text.last? (Text.join "\n" (lines.map (" " ++ ·))) = some c ∧ Text.isBlank c = false := by
  have hline := List.getLast?_eq_getLast_of_ne_nil h.not_nil
  have hchars : (lines.getLast h.not_nil).toList ≠ [] := by
    intro hnil
    exact h.last _ hline (by simp [Text.Blank, hnil])
  have hc := List.getLast?_eq_getLast_of_ne_nil hchars
  have hindented : (lines.map (" " ++ ·)).getLast? = some (" " ++ lines.getLast h.not_nil) := by
    rw [List.getLast?_map, hline, Option.map_some]
  refine ⟨_, Text.last?_join "\n" hindented ?_, h.no_trailing _ hline _ hc⟩
  rw [Text.last?, String.toList_append, List.getLast?_append, hc]
  rfl

theorem toList_join_dedent (first : String) (rest : List String) :
    (Text.join "\n" (Text.dedent first :: rest)).toList
      = Text.trimLeft first.toList ++ (Text.concat (rest.map ("\n" ++ ·))).toList := by
  rw [Text.join_cons, String.toList_append, Text.dedent, String.toList_ofList]

/-- The indentation of the first line stands before all the rest. -/
theorem toList_join_indent (first : String) (rest : List String) :
    (Text.join "\n" ((" " ++ first) :: rest)).toList
      = (' ' :: first.toList.takeWhile Text.isBlank)
        ++ (Text.join "\n" (Text.dedent first :: rest)).toList := by
  rw [toList_join_dedent, Text.join_cons, String.toList_append, String.toList_append,
    ← List.append_assoc, List.cons_append, Text.trimLeft, List.takeWhile_append_dropWhile]
  rfl

/-- Trimming code as a whole takes the indentation of its first line away,
and nothing else but what was put around it. -/
theorem trim_commented {first : String} {rest : List String} (h : CodeLines (first :: rest)) :
    Text.trim (commented (first :: rest))
      = Text.join "\n" (Text.dedent first :: rest.map (" " ++ ·)) := by
  have hdedent : Text.trimLeft first.toList ≠ [] :=
    fun hnil => h.first first rfl (List.dropWhile_eq_nil_iff.mp hnil)
  have hcode := toList_join_dedent first (rest.map (" " ++ ·))
  have hlines := toList_join_indent first (rest.map (" " ++ ·))
  have hnonempty : (Text.join "\n" (Text.dedent first :: rest.map (" " ++ ·))).toList ≠ [] := by
    rw [hcode]
    exact List.append_ne_nil_of_left_ne_nil hdedent _
  rw [← String.ofList_toList (s := Text.join "\n" (Text.dedent first :: rest.map (" " ++ ·)))]
  -- What is trimmed off the front is the new line, the space of the
  -- marker, and then the indentation of the first line as well.
  refine Text.trim_eq ('\n' :: ' ' :: first.toList.takeWhile Text.isBlank) ['\n'] ?_ ?_
    (List.forall_mem_singleton.mpr (by decide)) hnonempty ?_ ?_
  · rw [commented, String.toList_append, String.toList_append, List.map_cons, hlines]
    simp
  · refine List.forall_mem_cons.mpr ⟨by decide, List.forall_mem_cons.mpr ⟨by decide, ?_⟩⟩
    exact fun c hc => List.mem_takeWhile_imp hc
  · rw [hcode, List.head?_append_of_ne_nil _ hdedent]
    exact Text.head?_trimLeft _
  · obtain ⟨last, hlast, hblank⟩ := h.last?_join
    rw [List.map_cons, Text.last?, hlines, List.getLast?_append_of_ne_nil _ hnonempty] at hlast
    rw [hlast]
    rintro c ⟨rfl⟩
    exact hblank

/-! ## Fences -/

theorem dedent_eq_self_iff (s : String) :
    Text.dedent s = s ↔ ∀ c ∈ s.toList.head?, Text.isBlank c = false := by
  constructor
  · intro h
    rw [← h, Text.dedent, String.toList_ofList]
    exact Text.head?_trimLeft _
  · intro h
    rw [Text.dedent, Text.trimLeft_eq_self h, String.ofList_toList]

theorem fenced_inj {first first' : String} {rest : List String} :
    fenced (first :: rest) = fenced (first' :: rest) ↔ first = first' := by
  simp only [fenced, Text.join_cons]
  constructor
  · intro h
    simpa using h
  · rintro rfl
    rfl

/-- **What a fence keeps of the code in it.** One space is taken from
every line and no delimiter is added; the first line loses all that it
was indented by. So the fence shows the lines as they were written
exactly if the first one was not indented. -/
theorem fence_keeps_lines_iff (s : Setting) (selfClosing : Bool) {lines : List String}
    (h : CodeLines lines) :
    renderNodes s [fence (commented lines) selfClosing] = { text := fenced (dedentFirst lines) } ∧
    ((renderNodes s [fence (commented lines) selfClosing]).text = fenced lines ↔
      ∀ first ∈ lines.head?, ∀ c ∈ first.toList.head?, Text.isBlank c = false) := by
  match lines, h with
  | [], h => exact absurd rfl h.not_nil
  | first :: rest, h =>
    obtain ⟨hfirst, hrest⟩ := List.forall_mem_cons.mp h.no_newline
    have hdedent : '\n' ∉ (Text.dedent first).toList := by
      rw [Text.dedent, String.toList_ofList]
      exact fun hmem => hfirst ((List.dropWhile_sublist _).subset hmem)
    have hrendered : renderNodes s [fence (commented (first :: rest)) selfClosing]
        = { text := fenced (dedentFirst (first :: rest)) } := by
      rw [renderNodes_fence, trim_commented h, reindent_join hdedent hrest]
      rfl
    refine ⟨hrendered, ?_⟩
    rw [hrendered]
    simpa [dedentFirst] using fenced_inj.trans (dedent_eq_self_iff first)

namespace Indented

def setting : Setting :=
  { subject := ⟨"a.A", ⟨"src/A.java", 1, 0⟩⟩, resolve := fun _ => none, inherited := none }

def lines : List String := ["  open()", "  read()"]

theorem codeLines : CodeLines lines where
  not_nil := by decide
  no_newline := by decide
  first := by decide
  last := by decide
  no_trailing := by
    rintro _ ⟨rfl⟩ _ ⟨rfl⟩
    decide

/-- Of two lines that are indented alike, the first one is moved. -/
theorem first_line_moves :
    CodeLines lines ∧
    (renderNodes setting [fence (commented lines) false]).text = "```lua\nopen()\n  read()\n```" ∧
    (renderNodes setting [fence (commented lines) false]).text ≠ fenced lines := by
  obtain ⟨hrendered, hkept⟩ := fence_keeps_lines_iff setting false codeLines
  refine ⟨codeLines, ?_, fun h => absurd (hkept.mp h _ rfl _ rfl) (by decide)⟩
  rw [hrendered]
  decide

end Indented

end ApiStubs
