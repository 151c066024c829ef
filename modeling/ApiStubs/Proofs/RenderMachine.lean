/-
ApiStubs.Proofs.RenderMachine — rendering one step at a time.

`renderAll` hands down what an inherited comment renders to, and so it
ends by its form alone. The machine of this module works the other way
round. It has a current owner, a stack of the methods whose comments are
being expanded and a list of tasks. An inherit marker looks up the comment
of the overridden method when its turn comes, makes the ancestor the owner
and schedules the comment and then a task that goes back. The only guard
is that the ancestor is not on the stack.

Nothing in `step` says that a run ends, or that owner and stack come back
to what they were: that is what `RenderMachineTheorems` proves.
-/
import ApiStubs.Render.Comment

namespace ApiStubs

/-- The declaration as the subject of a diagnostic. -/
def Owner.subject (p : Program) : Owner → Subject
  | .type decl => Program.typeSubject decl
  | .method m => p.methodSubject m

/-- Is the owner, if it is a method, one of the program? -/
def Owner.Declared (p : Program) : Owner → Prop
  | .type _ => True
  | .method m => m ∈ p.methods

/-- The output followed by a fragment, which is told how the output ends. -/
def Rendered.push (out : Rendered) (f : Fragment) : Rendered :=
  out.append (f (out.endsFresh true))

namespace RenderMachine

/-! ## Tasks -/

/-- What is still to be done. -/
inductive Task where
  /-- Output that does not depend on the owner. -/
  | emit (f : Fragment)
  /-- A problem, with the owner of the moment as its subject. -/
  | report (kind message : String)
  | reference (kind : String) (r : Reference)
  | node (place : Place) (node : DocNode)
  | walk (place : Place) (nodes : List DocNode)
  /-- An inherit marker. -/
  | inherit (place : Place)
  /-- The end of an inherited comment: back to the method that inherits. -/
  | leave (m : Method)

/-- The task of writing a text. -/
def write (s : String) : Task := .emit (Fragment.write s)

/-- The tasks of a markup element. -/
def elementTasks (place : Place) (name : String) (attributes : List Attribute)
    (selfClosing : Bool) (children : List DocNode) : List Task :=
  if name = "pre" then
    let indent := Text.spaces place.indent
    [.emit (Fragment.writeIfFresh indent),
      write ("```lua" ++ fenceAttributes attributes ++ "\n" ++ indent),
      .walk place.fence children, write ("\n" ++ indent ++ "```")]
  else if name = "p" || name = "ul" then [.walk place children]
  else if name = "li" then [write " - ", .walk place.listItem children]
  else
    match emphasis? name attributes with
    | some mark => [write mark, .walk place children, write mark]
    | none =>
      if selfClosing then [write (openingTag name attributes ++ " />")]
      else
        [write (openingTag name attributes ++ ">"), .walk place children,
          write ("</" ++ name ++ ">")]

/-- The tasks of a block tag. -/
def blockTagTasks (place : Place) (name : String) (content : List DocNode) : List Task :=
  match Text.after vendorNamespace name with
  | none => [.report "block tag" ("Unsupported block tag @" ++ name)]
  | some tag =>
    if tag = "module" then []
    else
      [.emit (Fragment.capture (tagCaptures tag)),
        write ("@" ++ tag ++ if leadsWith "[" content then "" else " "),
        .walk place content, write "\n"]

/-- The tasks of a node. -/
def nodeTasks (place : Place) : DocNode → List Task
  | .text body => [write (reindent place.indent body)]
  | .erroneous body => [write (reindent place.indent body)]
  | .code body => [write (inlineLiteral place true body)]
  | .literal body => [write (inlineLiteral place false body)]
  | .reference r => [.reference "reference" r]
  | .link r [] => [write "[`", .reference "link" r, write "`]"]
  | .link r label =>
    [write "[", .walk place label, write "]", write "[`", .reference "link" r, write "`]"]
  | .element name attributes children selfClosing =>
    elementTasks place name attributes selfClosing children
  | .entity name => [write ("&" ++ name ++ ";")]
  | .inheritDoc => [.inherit place]
  | .hidden => [write "@local\n"]
  | .param name description => [.emit (Fragment.capture { params := [(name, description)] })]
  | .returns description => [.emit (Fragment.capture { returns := some description })]
  | .throws description =>
    if leadsWith "(hidden)" description then []
    else [write "@throws ", .walk place description, write "\n"]
  | .deprecated body => [write "@deprecated ", .walk place body, write "\n"]
  | .see [] => []
  | .see (first :: rest) =>
    [write "@see ", .node place first, write " ", .walk place rest, write "\n"]
  | .blockTag name content => blockTagTasks place name content
  | .unsupported => [.report "unsupported" "Unsupported documentation node"]

/-- The tasks of a whole comment. -/
def commentTasks (place : Place) (doc : DocComment) : List Task :=
  [.walk place doc.body, write "\n", .walk place doc.tags]

/-! ## Steps -/

/-- The state of a renderer. -/
structure State where
  /-- The declaration whose documentation is being rendered. -/
  owner : Owner
  /-- The methods whose inherit markers are being expanded, the latest
  first. -/
  inheriting : List MethodId
  tasks : List Task
  out : Rendered

/-- The owner, if it is a method, and the methods on the stack. -/
def State.expanding (s : State) : List MethodId :=
  match s.owner with
  | .type _ => s.inheriting
  | .method m => m.id :: s.inheriting

/-- What an inherit marker stands for: the method that inherits, the one
that it inherits from, and the comment of that one. -/
def expansion? (p : Program) (inheriting : List MethodId) :
    Owner → Option (Method × Method × DocComment)
  | .type _ => none
  | .method current =>
    ((p.inheritedDoc current).filter (·.1.id ∉ inheriting)).map fun found => (current, found)

/-- How an owner reports problems and names references. -/
def voice (p : Program) (resolve : Target → Option String) (owner : Owner) : Setting :=
  { subject := owner.subject p, resolve, inherited := none }

/-- One step; none is left when there are no more tasks. -/
def step (p : Program) (resolve : Target → Option String) (s : State) : Option State :=
  match s.tasks with
  | [] => none
  | .emit f :: rest => some { s with tasks := rest, out := s.out.push f }
  | .report kind message :: rest =>
    some { s with tasks := rest, out := s.out.push ((voice p resolve s.owner).report kind message) }
  | .reference kind r :: rest =>
    some { s with tasks := rest, out := s.out.push ((voice p resolve s.owner).reference kind r) }
  | .node place node :: rest => some { s with tasks := nodeTasks place node ++ rest }
  | .walk _ [] :: rest => some { s with tasks := rest }
  | .walk place (node :: nodes) :: rest =>
    some { s with tasks := .node place node :: .walk place nodes :: rest }
  | .inherit place :: rest =>
    match expansion? p s.inheriting s.owner with
    | none =>
      some { s with tasks := .report "inheritDoc" "Cannot resolve parent doc comment." :: rest }
    | some (current, ancestor, doc) =>
      some { s with owner := .method ancestor
                    inheriting := current.id :: s.inheriting
                    tasks := commentTasks place doc ++ .leave current :: rest }
  | .leave m :: rest =>
    some { s with owner := .method m, inheriting := s.inheriting.tail, tasks := rest }

/-! ## Runs -/

/-- What is rendered on its own. -/
inductive Job where
  | comment (doc : DocComment)
  | fragment (nodes : List DocNode)

/-- The tasks of a job. -/
def Job.tasks : Job → List Task
  | .comment doc => commentTasks {} doc
  | .fragment nodes => [.walk {} nodes]

/-- What a job renders to. -/
def Job.rendered (s : Setting) : Job → Rendered
  | .comment doc => renderComment s doc
  | .fragment nodes => renderNodes s nodes

/-- The machine at the beginning of a job. -/
def Job.start (owner : Owner) (job : Job) : State :=
  { owner, inheriting := [], tasks := job.tasks, out := {} }

end RenderMachine

end ApiStubs
