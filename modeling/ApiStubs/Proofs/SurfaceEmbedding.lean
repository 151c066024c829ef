/-
ApiStubs.Proofs.SurfaceEmbedding — the surface of a program within that of
a larger one.

Extraction looks at one declaration at a time, so the class of a type and
the callable of a method can be said without the tables that extraction
fills (`Surface.class?_of`, `Surface.callable?_of`). `Program.Extends` is
an embedding together with what the larger program has beside the smaller
one. Under it the surface of the smaller program is found again, number by
number: classes, callables, owners, the names of what is mentioned, and
finally each composed function (`Extends.composed`) and each header
(`Extends.headerOf`).

What the larger program adds must not give a meaning to a name that the
smaller one mentions and does not know; `Extends.quiet` asks for that and
no more, and it is all that the names in documentation depend on.
-/
import ApiStubs.Proofs.ReferenceTheorems
import ApiStubs.Proofs.VocabularyTheorems

namespace ApiStubs

/-! ## Extraction, one declaration at a time -/

def ClassInfo.rename (r : Renaming) (c : ClassInfo) : ClassInfo :=
  { c with id := r.type c.id }

def Callable.rename (r : Renaming) (f : Callable) : Callable :=
  { f with method := f.method.rename r }

theorem Callable.ofMethod?_rename (r : Renaming) (m : Method) :
    Callable.ofMethod? (m.rename r) = (Callable.ofMethod? m).map (·.rename r) := by
  unfold Callable.ofMethod?
  show m.decl.marker.map _ = _
  cases m.decl.marker with
  | none => rfl
  | some marker =>
    obtain ⟨_ | _ | _⟩ := marker <;> rfl

namespace Surface

/-- The class of a declared type, if it is documented. -/
def classOf? (caps : Capabilities) (g : TypeGraph) (t : DeclaredType) : Option ClassInfo :=
  documentedClass? (ClassInfo.ofType caps g t)

/-- The problem with what a declared type documents. -/
def problemOf? (caps : Capabilities) (g : TypeGraph) (t : DeclaredType) : Option Diagnostic :=
  documentationProblem? (ClassInfo.ofType caps g t)

variable {p : Program} {caps : Capabilities} {g : TypeGraph} {t : DeclaredType} {c : ClassInfo}

/-- The class of a type has its number and its declaration. -/
theorem of_classOf? (h : classOf? caps g t = some c) : c.id = t.id ∧ c.decl = t.decl := by
  unfold classOf? ClassInfo.ofType at h
  split at h
  · cases h
  · simp only at h
    split at h
    · cases h
      exact ⟨rfl, rfl⟩
    · split at h
      · cases h
      · cases h
        exact ⟨rfl, rfl⟩

theorem classes_perm (p : Program) (caps : Capabilities) :
    (Surface.of p caps).classes.Perm (p.types.filterMap (classOf? caps p.graph)) := by
  refine (List.mergeSort_perm _ _).trans (List.Perm.of_eq ?_)
  rw [documentation, List.filterMap_map]
  rfl

theorem mem_classes :
    c ∈ (Surface.of p caps).classes ↔ ∃ t ∈ p.types, classOf? caps p.graph t = some c := by
  rw [(classes_perm p caps).mem_iff, List.mem_filterMap]

theorem nodup_classes (hnodup : (p.types.map (·.id)).Nodup) :
    ((Surface.of p caps).classes.map (·.id)).Nodup := by
  rw [((classes_perm p caps).map _).nodup_iff]
  refine List.pairwise_map.mpr (List.pairwise_filterMap.mpr ((List.pairwise_map.mp hnodup).imp ?_))
  intro a b hne c hc d hd
  rw [(of_classOf? hc).1, (of_classOf? hd).1]
  exact hne

/-- The class of a type is what its declaration says. -/
theorem class?_of (hnodup : (p.types.map (·.id)).Nodup) (id : TypeId) :
    (Surface.of p caps).class? id
      = (p.type? id).bind fun decl => classOf? caps p.graph ⟨id, decl⟩ := by
  refine Option.ext fun c => ?_
  rw [class?, Program.find?_eq_some_iff_of_nodup (nodup_classes hnodup), mem_classes,
    Option.bind_eq_some_iff]
  constructor
  · rintro ⟨⟨t, ht, hc⟩, rfl⟩
    rw [(of_classOf? hc).1]
    exact ⟨t.decl, (Program.type?_eq_some_iff hnodup).mpr ht, hc⟩
  · rintro ⟨decl, hdecl, hc⟩
    exact ⟨⟨_, (Program.type?_eq_some_iff hnodup).mp hdecl, hc⟩, (of_classOf? hc).1⟩

/-- The callable of a method is what its declaration says. -/
theorem callable?_of (tables : p.Tables) {m : Method} (hm : m ∈ p.methods) :
    (Surface.of p caps).callable? m.id = Callable.ofMethod? m := by
  have hnodup : ((Surface.of p caps).callables.map (·.method.id)).Nodup := by
    refine List.pairwise_map.mpr (List.pairwise_filterMap.mpr (tables.methods_increasing.imp ?_))
    intro a b hlt f hf g hg
    rw [Callable.method_of_ofMethod? hf, Callable.method_of_ofMethod? hg]
    exact Nat.ne_of_lt hlt
  refine Option.ext fun f => ?_
  rw [callable?, Program.find?_eq_some_iff_of_nodup hnodup]
  constructor
  · rintro ⟨hmem, hid⟩
    obtain ⟨other, hother, hf⟩ := List.mem_filterMap.mp hmem
    rw [Callable.method_of_ofMethod? hf] at hid
    rwa [← tables.method_ext hother hm hid]
  · intro hf
    exact ⟨List.mem_filterMap.mpr ⟨m, hm, hf⟩, by rw [Callable.method_of_ofMethod? hf]⟩

theorem callableNamed?_of (tables : p.Tables) (owner : TypeId) (name : String) :
    (Surface.of p caps).callableNamed? p owner name
      = ((p.methodsOf owner).filter (·.decl.name = name)).findSome? Callable.ofMethod? := by
  rw [callableNamed?, ← List.head?_filterMap, ← List.head?_filterMap]
  refine congrArg List.head? (List.filterMap_congr fun m hm => callable?_of tables ?_)
  exact (Program.mem_methodsOf.mp (List.mem_of_mem_filter hm)).1

end Surface

/-! ## Programs within programs -/

/-- The type that a reference leads to, or whose method it leads to. -/
def Target.id : Target → String
  | .type id => id
  | .method owner _ => owner

namespace Program

/-- The documentation refers to the type or to a method of it, or a
parameter or result names it. -/
def Mentions (p : Program) (name : String) : Prop :=
  (∃ target, p.Refers target ∧ target.id = name) ∨ ∃ m ∈ p.methods, name ∈ m.decl.typeIds

/-- The second program has the declarations of the first, under other
numbers, and the given ones beside them. -/
structure Extends (r : Renaming) (p p' : Program) (types : List DeclaredType)
    (methods : List Method) : Prop where
  embeds : p.Embeds r p'
  tables : p.Tables
  tables' : p'.Tables
  nodup : (p.types.map (·.id)).Nodup
  nodup' : (p'.types.map (·.id)).Nodup
  types : p'.types.Perm (p.types.map (·.rename r) ++ types)
  methods : p'.methods.Perm (p.methods.map (·.rename r) ++ methods)
  /-- A name that is mentioned and not known does not become known, other
  than as a name. -/
  quiet : ∀ name, p.Mentions name → p.graph.lookup name = none →
    ∀ id, p'.graph.lookup name = some id →
      p'.type? id = none ∧ p'.graph.kind id = none ∧ p'.methodsOf id = []

namespace Extends

variable {r : Renaming} {p p' : Program} {types : List DeclaredType} {methods : List Method}
  {caps : Capabilities} {id : TypeId} {t : DeclaredType}

/-! ### Classes and callables -/

theorem classification (h : p.Extends r p' types methods) (hid : id < p.graph.size) :
    Classification.of caps p'.graph (r.type id) = Classification.of caps p.graph id := by
  simp only [Classification.of, h.embeds.graph.isSubtypeOfName hid]

/-- The same is documented about a type, under its new number. -/
theorem ofType (h : p.Extends r p' types methods) (hid : t.id < p.graph.size) :
    ClassInfo.ofType caps p'.graph (t.rename r)
      = (ClassInfo.ofType caps p.graph t).map (Option.map (·.rename r)) := by
  have hclass : Classification.of caps p'.graph (t.rename r).id
      = Classification.of caps p.graph t.id := h.classification hid
  have hmodule : ClassInfo.moduleText? (t.rename r).decl = ClassInfo.moduleText? t.decl := rfl
  simp only [ClassInfo.ofType, hclass, hmodule]
  cases ClassInfo.moduleText? t.decl with
  | none => rfl
  | some text =>
    simp only
    split
    · rfl
    · cases ClassInfo.splitKind? text <;> rfl

theorem classOf? (h : p.Extends r p' types methods) (hid : t.id < p.graph.size) :
    Surface.classOf? caps p'.graph (t.rename r)
      = (Surface.classOf? caps p.graph t).map (·.rename r) := by
  rw [Surface.classOf?, h.ofType hid, Surface.classOf?]
  cases ClassInfo.ofType caps p.graph t <;> rfl

theorem problemOf? (h : p.Extends r p' types methods) (hid : t.id < p.graph.size) :
    Surface.problemOf? caps p'.graph (t.rename r) = Surface.problemOf? caps p.graph t := by
  rw [Surface.problemOf?, h.ofType hid, Surface.problemOf?]
  cases ClassInfo.ofType caps p.graph t <;> rfl

theorem class? (h : p.Extends r p' types methods) (hid : id < p.graph.size) :
    (Surface.of p' caps).class? (r.type id)
      = ((Surface.of p caps).class? id).map (·.rename r) := by
  rw [Surface.class?_of h.nodup', Surface.class?_of h.nodup, h.embeds.type? id hid]
  cases p.type? id with
  | none => rfl
  | some decl => exact h.classOf? (t := ⟨id, decl⟩) hid

theorem callableNamed? (h : p.Extends r p' types methods) (hid : id < p.graph.size)
    (name : String) :
    (Surface.of p' caps).callableNamed? p' (r.type id) name
      = ((Surface.of p caps).callableNamed? p id name).map (·.rename r) := by
  rw [Surface.callableNamed?_of h.tables', Surface.callableNamed?_of h.tables,
    h.embeds.methodsOf id hid, List.filter_map, List.findSome?_map, List.map_findSome?]
  refine congrArg (List.findSome? · _) (funext fun m => ?_)
  exact Callable.ofMethod?_rename r m

/-- The classes of the first program are classes of the second; the others
are those of the types beside. -/
theorem classes (h : p.Extends r p' types methods) :
    (Surface.of p' caps).classes.Perm
      ((Surface.of p caps).classes.map (·.rename r)
        ++ types.filterMap (Surface.classOf? caps p'.graph)) := by
  have hold : (p.types.map (·.rename r)).filterMap (Surface.classOf? caps p'.graph)
      = (p.types.filterMap (Surface.classOf? caps p.graph)).map (·.rename r) := by
    rw [List.filterMap_map, List.map_filterMap]
    exact List.filterMap_congr fun t ht => h.classOf? (h.embeds.type_lt t ht)
  refine (Surface.classes_perm p' caps).trans ((h.types.filterMap _).trans ?_)
  rw [List.filterMap_append, hold]
  exact ((Surface.classes_perm p caps).symm.map _).append_right _

theorem callables (h : p.Extends r p' types methods) :
    (Surface.of p' caps).callables.Perm
      ((Surface.of p caps).callables.map (·.rename r)
        ++ methods.filterMap Callable.ofMethod?) := by
  have hold : (p.methods.map (·.rename r)).filterMap Callable.ofMethod?
      = (p.methods.filterMap Callable.ofMethod?).map (·.rename r) := by
    rw [List.filterMap_map, List.map_filterMap]
    exact List.filterMap_congr fun m _ => Callable.ofMethod?_rename r m
  refine (h.methods.filterMap _).trans (List.Perm.of_eq ?_)
  rw [List.filterMap_append, hold]
  rfl

/-! ### Owners -/

/-- By the recursion of the search along the superclasses. -/
theorem ownerFrom (h : p.Extends r p' types methods) {seen : List TypeId}
    (hseen : ∀ x ∈ seen, x < p.graph.size) (hid : id < p.graph.size) :
    (Surface.of p' caps).ownerFrom p'.graph (seen.map r.type) (r.type id)
      = ((Surface.of p caps).ownerFrom p.graph seen id).map (·.rename r) := by
  fun_induction Surface.ownerFrom (Surface.of p caps) p.graph seen id with
  | case1 seen id hmem =>
    rw [Surface.ownerFrom, dif_pos ((h.embeds.graph.mem_map hid hseen).mpr hmem)]
    rfl
  | case2 seen id hmem hnever =>
    rw [Surface.ownerFrom, dif_neg ((h.embeds.graph.mem_map hid hseen).not.mpr hmem),
      h.embeds.graph.kind hid, if_pos hnever]
    rfl
  | case3 seen id hmem hnever c hfound =>
    rw [Surface.ownerFrom, dif_neg ((h.embeds.graph.mem_map hid hseen).not.mpr hmem),
      h.embeds.graph.kind hid, if_neg hnever, h.class? hid, hfound]
    rfl
  | case4 seen id hmem hnever hnone parent hparent ih =>
    have hlt := h.embeds.graph.closed id parent
      (TypeGraph.mem_supertypes_of_superclass hparent)
    have hrest := ih (List.forall_mem_cons.mpr ⟨hid, hseen⟩) hlt
    rw [Surface.ownerFrom, dif_neg ((h.embeds.graph.mem_map hid hseen).not.mpr hmem),
      h.embeds.graph.kind hid, if_neg hnever, h.class? hid, hnone]
    simp only [Option.map_none]
    split
    · next parent' hparent' =>
      rw [h.embeds.graph.superclass hid, hparent] at hparent'
      cases hparent'
      exact hrest
    · next hparent' =>
      rw [h.embeds.graph.superclass hid, hparent] at hparent'
      cases hparent'
  | case5 seen id hmem hnever hnone hparent =>
    rw [Surface.ownerFrom, dif_neg ((h.embeds.graph.mem_map hid hseen).not.mpr hmem),
      h.embeds.graph.kind hid, if_neg hnever, h.class? hid, hnone]
    simp only [Option.map_none]
    split
    · next parent' hparent' =>
      rw [h.embeds.graph.superclass hid, hparent] at hparent'
      cases hparent'
    · rfl

/-- What a type declares has the same owner. -/
theorem owner? (h : p.Extends r p' types methods) (hid : id < p.graph.size) :
    (Surface.of p' caps).owner? p'.graph (r.type id)
      = ((Surface.of p caps).owner? p.graph id).map (·.rename r) :=
  h.ownerFrom (List.forall_mem_nil _) hid

theorem class_lt (h : p.Extends r p' types methods) {c : ClassInfo}
    (hc : c ∈ (Surface.of p caps).classes) : c.id < p.graph.size := by
  obtain ⟨t, ht, hclass⟩ := Surface.mem_classes.mp hc
  rw [(Surface.of_classOf? hclass).1]
  exact h.embeds.type_lt t ht

theorem owner?_lt (h : p.Extends r p' types methods) {c : ClassInfo}
    (hc : (Surface.of p caps).owner? p.graph id = some c) : c.id < p.graph.size :=
  h.class_lt (Surface.mem_classes_of_ownerFrom hc)

/-! ### Names -/

theorem typeName? (h : p.Extends r p' types methods) {name : String} (hname : p.Mentions name) :
    (Surface.of p' caps).typeName? p' name = (Surface.of p caps).typeName? p name := by
  unfold Surface.typeName?
  cases hfound : p.graph.lookup name with
  | some id =>
    rw [h.embeds.graph.lookup name id hfound]
    simp only [Option.bind_eq_bind, Option.bind_some,
      h.class? (TypeGraph.lookup_lt hfound)]
    cases (Surface.of p caps).class? id <;> rfl
  | none =>
    cases hother : p'.graph.lookup name with
    | none => simp only [Option.bind_eq_bind, Option.bind_none]
    | some other =>
      obtain ⟨hnone, _, _⟩ := h.quiet name hname hfound other hother
      simp [Surface.class?_of h.nodup', hnone]

theorem isEnum (h : p.Extends r p' types methods) {name : String} (hname : p.Mentions name) :
    Surface.isEnum p' name = Surface.isEnum p name := by
  unfold Surface.isEnum
  cases hfound : p.graph.lookup name with
  | some id =>
    rw [h.embeds.graph.lookup name id hfound]
    simp only [h.embeds.graph.kind (TypeGraph.lookup_lt hfound)]
  | none =>
    cases hother : p'.graph.lookup name with
    | none => rfl
    | some other =>
      obtain ⟨_, hkind, _⟩ := h.quiet name hname hfound other hother
      simp [hkind]

theorem functionName? (h : p.Extends r p' types methods) {owner : String}
    (howner : p.Mentions owner) {context : Option TypeId}
    (hcontext : ∀ id ∈ context, id < p.graph.size) (name : String) :
    (Surface.of p' caps).functionName? p' (context.map r.type) owner name
      = (Surface.of p caps).functionName? p context owner name := by
  unfold Surface.functionName?
  cases hfound : p.graph.lookup owner with
  | none =>
    cases hother : p'.graph.lookup owner with
    | none => rfl
    | some other =>
      obtain ⟨_, _, hmethods⟩ := h.quiet owner howner hfound other hother
      simp [Surface.callableNamed?, hmethods]
  | some id =>
    have hid := TypeGraph.lookup_lt hfound
    rw [h.embeds.graph.lookup owner id hfound]
    simp only [Option.bind_eq_bind, Option.bind_some, h.callableNamed? hid, h.owner? hid]
    cases (Surface.of p caps).callableNamed? p id name with
    | none => rfl
    | some f =>
      cases hc : (Surface.of p caps).owner? p.graph id with
      | none => rfl
      | some c =>
        have hsame : some (r.type c.id) = context.map r.type ↔ some c.id = context := by
          cases context with
          | none => simp
          | some other =>
            have hlt : other < p.graph.size := hcontext other rfl
            simp only [Option.map_some, Option.some.injEq]
            exact ⟨h.embeds.graph.injective _ (h.owner?_lt hc) _ hlt, congrArg _⟩
        simp only [Option.map_some, Option.bind_some, ClassInfo.rename, hsame]
        rfl

variable (currentDir : String) (config : Config)

/-- References lead to the same names. -/
theorem resolver (h : p.Extends r p' types methods) {context : Option TypeId}
    (hcontext : ∀ id ∈ context, id < p.graph.size) (target : Target) (htarget : p.Refers target) :
    (Project.of currentDir config p).resolver context target
      = (Project.of currentDir config p').resolver (context.map r.type) target := by
  have hmentions : p.Mentions target.id := .inl ⟨target, htarget, rfl⟩
  cases target with
  | type id => exact (h.typeName? hmentions).symm
  | method owner name => exact (h.functionName? hmentions hcontext name).symm

theorem typeNames (h : p.Extends r p' types methods) {m : Method} (hm : m ∈ p.methods) :
    ∀ id ∈ m.decl.typeIds,
      ValueType.AgreeOn ((Surface.of p caps).typeNames p) ((Surface.of p' caps).typeNames p') id := by
  intro id hid
  have hmentions : p.Mentions id := .inr ⟨m, hm, hid⟩
  exact ⟨(h.typeName? hmentions).symm, (h.isEnum hmentions).symm⟩

/-! ### Functions and headers -/

theorem isGeneric_rename (owner : Option ClassInfo) :
    Surface.isGeneric (owner.map (·.rename r)) = Surface.isGeneric owner := by
  cases owner <;> rfl

/-- A function is composed to the same text, with the same problems. -/
theorem compose (h : p.Extends r p' types methods) {f : Callable} (hm : f.method ∈ p.methods)
    {owner : Option ClassInfo} (howner : ∀ c ∈ owner, c.id < p.graph.size) :
    FunctionStub.compose (Project.of currentDir config p') (owner.map (·.rename r)) (f.rename r)
      = { FunctionStub.compose (Project.of currentDir config p) owner f with
          callable := f.rename r } := by
  have hcontext : ∀ id ∈ owner.map (·.id), id < p.graph.size := by
    intro id hid
    obtain ⟨c, hc, rfl⟩ := Option.map_eq_some_iff.mp hid
    exact howner c hc
  have hids : (owner.map (·.rename r)).map (·.id) = (owner.map (·.id)).map r.type := by
    cases owner <;> rfl
  have hresolve := h.resolver currentDir config hcontext
  have hdecl : (f.rename r).method.decl = f.method.decl := rfl
  obtain ⟨hparam, hreturns⟩ := within_captured hm
  rw [FunctionStub.compose_eq, hids]
  show FunctionStub.ofRendered _ _ _ _ _ ((Owner.method (f.method.rename r)).rendered p' _) = _
  rw [← h.embeds.rendered_method hresolve hm]
  exact (h.embeds.agreesOn_method hresolve hm).ofRendered hdecl hparam hreturns (h.typeNames hm)
    (isGeneric_rename owner).symm _

theorem composed (h : p.Extends r p' types methods) {f : Callable}
    (hf : f ∈ (Project.of currentDir config p).surface.callables) :
    (Project.of currentDir config p').composed (f.rename r)
      = { (Project.of currentDir config p).composed f with callable := f.rename r } := by
  have hm : f.method ∈ p.methods := Project.method_mem_of_callable hf
  have howner : (Project.of currentDir config p').surface.owner? p'.graph (r.type f.method.owner)
      = ((Project.of currentDir config p).surface.owner? p.graph f.method.owner).map (·.rename r) :=
    h.owner? (h.embeds.owner_lt f.method hm)
  show FunctionStub.compose _ ((Project.of currentDir config p').surface.owner? p'.graph
    (r.type f.method.owner)) _ = _
  rw [howner]
  exact h.compose currentDir config hm fun c hc => h.owner?_lt hc

/-- The header of a class is the same. -/
theorem classDocumentation (h : p.Extends r p' types methods) {c : ClassInfo}
    (hc : c ∈ (Project.of currentDir config p).surface.classes) :
    StubDocument.classDocumentation (Project.of currentDir config p') (c.rename r)
      = StubDocument.classDocumentation (Project.of currentDir config p) c := by
  have hcontext : ∀ id ∈ some c.id, id < p.graph.size := by
    intro id hid
    rw [← Option.some.inj hid]
    exact h.class_lt hc
  have hdeclared : p.Declares (.type c.decl) := Surface.exists_declared hc
  exact (hdeclared.rendered_type (h.resolver currentDir config hcontext)).symm

theorem headerOf (h : p.Extends r p' types methods) {c : ClassInfo}
    (hc : c ∈ (Project.of currentDir config p).surface.classes) :
    StubDocument.headerOf (Project.of currentDir config p') (c.rename r)
      = StubDocument.headerOf (Project.of currentDir config p) c := by
  unfold StubDocument.headerOf
  rw [h.classDocumentation currentDir config hc]
  rfl

end Extends

end Program

end ApiStubs
