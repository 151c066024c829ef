/-
ApiStubs.Proofs.CompositionTheorems — output is put together from its
parts.

Whether a fence begins with its indentation depends on what was written
before it, so nodes after others need not render to what they render to
alone. At the top level they do, because there is no indentation: output
is `Steady`, it comes out the same at the beginning of a line and within
one. Indentation begins with a list item, and that has just written
something itself, whatever stands before it. As a law of rendering
(`steady_law`) this holds through nested lists and inherited comments, and
`rendering_composes` draws the conclusions.
-/
import ApiStubs.Proofs.RenderInduction

namespace ApiStubs

/-! ## Steady output -/

namespace Fragment

/-- The output does not depend on what was written before. -/
def Steady (f : Fragment) : Prop := ∀ fresh, f fresh = f true

theorem steady_write (s : String) : (write s).Steady := fun _ => rfl

theorem steady_report (d : Diagnostic) : (report d).Steady := fun _ => rfl

theorem Steady.append {f g : Fragment} (hf : f.Steady) (hg : g.Steady) : (f ++ g).Steady := by
  intro fresh
  show (f fresh).append (g _) = (f true).append (g _)
  rw [hf fresh, hg (Rendered.endsFresh _ _), ← hg (Rendered.endsFresh _ true)]

/-- A text that ends within a line decides how what follows comes out. -/
theorem steady_write_append {s : String} {c : Char} (hlast : Text.last? s = some c)
    (f : Fragment) : (write s ++ f).Steady := by
  have hends : ∀ fresh, Rendered.endsFresh { text := s } fresh = decide (c = '\n') := by
    intro fresh
    simp only [Rendered.endsFresh, hlast]
  intro fresh
  show Rendered.append _ (f (Rendered.endsFresh { text := s } fresh))
    = Rendered.append _ (f (Rendered.endsFresh { text := s } true))
  rw [hends, hends]
  rfl

end Fragment

open Fragment

theorem steady_reference (s : Setting) (kind : String) (r : Reference) :
    (s.reference kind r).Steady := by
  obtain ⟨-, name, hname⟩ | ⟨message, -, hreport⟩ := s.reference_cases kind r
  · rw [hname]
    exact steady_write _
  · rw [hreport]
    exact (steady_report _).append (steady_write _)

theorem Visit.steady_piece (v : Visit) : v.piece.Steady := by
  unfold Visit.piece
  split
  · exact steady_reference _ _ _
  · exact ((steady_write _).append (steady_reference _ _ _)).append (steady_write _)
  · split
    · exact steady_report _
    · exact fun _ => rfl

/-- Without indentation, output is steady. -/
theorem steady_law : RenderLaw fun place f _ => place.indent = 0 → f.Steady where
  empty _ := fun _ _ => rfl
  write _ s := fun _ => steady_write s
  append hf hg := fun hplace => (hf hplace).append (hg hplace)
  margin place := by
    intro hplace fresh
    rw [hplace]
    cases fresh <;> rfl
  fence h := h
  -- An item may be indented, but nothing in it sees past its own mark.
  item _ := fun _ => steady_write_append (c := ' ') (by decide) _
  piece v := fun _ => v.steady_piece

theorem Owner.steady_renderAll (p : Program) (resolve : Target → Option String) (owner : Owner)
    (inFence : Bool) (nodes : List DocNode) :
    (renderAll (owner.setting p resolve) { inFence } nodes).Steady :=
  steady_law.renderAll_owner p resolve owner { inFence } nodes rfl

/-! ## Parts -/

theorem renderAll_append (s : Setting) (place : Place) (a b : List DocNode) :
    renderAll s place (a ++ b) = renderAll s place a ++ renderAll s place b := by
  induction a with
  | nil => exact (Fragment.empty_append _).symm
  | cons node a ih =>
    rw [List.cons_append, renderAll, renderAll, ih, Fragment.append_assoc]

theorem Captures.param?_merge (a b : Captures) (name : String) :
    (a.merge b).param? name = (b.param? name <|> a.param? name) := by
  simp only [param?, merge, List.reverse_append, List.find?_append]
  cases b.params.reverse.find? (·.1 = name) with
  | none => rfl
  | some found => rfl

/-- The output `whole` is the output `a` and then the output `b`: text and
problems follow one another, flags of either are raised, and of two
descriptions of one parameter or of the result the later one counts. -/
structure Rendered.Joins (a b whole : Rendered) : Prop where
  text : whole.text = a.text ++ b.text
  problems : whole.problems = a.problems ++ b.problems
  hasParam : whole.captures.hasParam = (a.captures.hasParam || b.captures.hasParam)
  hasReturn : whole.captures.hasReturn = (a.captures.hasReturn || b.captures.hasReturn)
  param : ∀ name, whole.captures.param? name = (b.captures.param? name <|> a.captures.param? name)
  returns : whole.captures.returns = (b.captures.returns <|> a.captures.returns)

theorem Rendered.joins_append (a b : Rendered) : Joins a b (a.append b) where
  text := rfl
  problems := rfl
  hasParam := rfl
  hasReturn := rfl
  param := Captures.param?_merge _ _
  returns := rfl

/-- Steady output is added to any output as it is alone. -/
theorem Rendered.joins_push (out : Rendered) {f : Fragment} (hf : f.Steady) :
    Joins out f.render (out.push f) := by
  have hpush : out.push f = out.append f.render := congrArg out.append (hf _)
  rw [hpush]
  exact joins_append _ _

/-- **Rendering at the top level is compositional.** The output of nodes
and more nodes is that of the former and then that of the latter. Nodes
that are not indented, in a fence or not, add to any output what they
render to alone. A comment is its body, a new line and its tags. -/
theorem rendering_composes (p : Program) (resolve : Target → Option String) (owner : Owner) :
    (∀ a b, Rendered.Joins (renderNodes (owner.setting p resolve) a)
      (renderNodes (owner.setting p resolve) b)
      (renderNodes (owner.setting p resolve) (a ++ b))) ∧
    (∀ nodes out, Rendered.Joins out (renderNodes (owner.setting p resolve) nodes)
      (out.push (renderAll (owner.setting p resolve) {} nodes))) ∧
    (∀ inFence nodes out, Rendered.Joins out
      (renderAll (owner.setting p resolve) { inFence } nodes).render
      (out.push (renderAll (owner.setting p resolve) { inFence } nodes))) ∧
    ∀ doc, Rendered.Joins
      { renderNodes (owner.setting p resolve) doc.body with
        text := (renderNodes (owner.setting p resolve) doc.body).text ++ "\n" }
      (renderNodes (owner.setting p resolve) doc.tags)
      (renderComment (owner.setting p resolve) doc) := by
  have hsteady := owner.steady_renderAll p resolve
  refine ⟨fun a b => ?_, fun nodes out => out.joins_push (hsteady false nodes),
    fun inFence nodes out => out.joins_push (hsteady inFence nodes), fun doc => ?_⟩
  · simp only [renderNodes, renderAll_append]
    exact Rendered.joins_push _ (hsteady false b)
  · have hbody : (renderAll (owner.setting p resolve) {} doc.body ++ write "\n").render
        = { renderNodes (owner.setting p resolve) doc.body with
            text := (renderNodes (owner.setting p resolve) doc.body).text ++ "\n" } :=
      (renderNodes (owner.setting p resolve) doc.body).append_text "\n"
    rw [← hbody]
    exact Rendered.joins_push _ (hsteady false doc.tags)

end ApiStubs
