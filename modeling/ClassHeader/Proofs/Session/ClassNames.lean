import ClassHeader.Proofs.Resolve.ClassNames
import ClassHeader.Proofs.Session.Compile

/-!
# Classes that a compiled class names

Collecting looks at the class constants of a pool, resolving follows indices from
members, instructions, handlers and nested attributes. Whatever class the second
comes to, the first has made a node of the graph.
-/

namespace ClassHeader

namespace FieldType

def IsPrimitiveArray (type : FieldType) : Prop :=
  0 < type.dimensions ∧ ∃ primitive, type.element = .primitive primitive

theorem element_of_className?_eq_none {type : FieldType} (h : type.className? = none) :
    ∃ primitive, type.element = .primitive primitive := by
  induction type with
  | primitive primitive => exact ⟨primitive, rfl⟩
  | object className => cases h
  | array component ih => exact ih h

theorem isPrimitiveArray_of_ofClassName {name : Bytes} {type : FieldType}
    (h : ofClassName name = .ok type) (hclass : type.className? = none) :
    type.IsPrimitiveArray := by
  refine ⟨?_, element_of_className?_eq_none hclass⟩
  rcases ofClassName_ok_iff.mp h with ⟨hbracket, hparse⟩ | ⟨-, -, -, rfl⟩
  · obtain ⟨-, rfl⟩ := parse_ok_iff.mp hparse
    cases type with
    | array component => exact Nat.succ_pos _
    | primitive type => cases type <;> cases hbracket
    | object className => cases hbracket
  · cases hclass

end FieldType

namespace Collect

variable {load : Bytes → Result ClassFile} {policy : EdgePolicy} {main name target : Bytes}
  {c : ClassFile} {g : Graph}

/-- The name of a class constant leads to a class of the graph, or to no class at all. -/
def Covers (g : Graph) (name : Bytes) : Prop :=
  ∃ type, FieldType.ofClassName name = .ok type ∧
    (type.IsPrimitiveArray ∨ ∃ target ∈ g.nodes, type.className? = some target)

/-- A finished graph is closed under dependencies. -/
theorem Progress.dependency_mem (h : Progress load policy main g.nodes ⟨g, g.nodes, []⟩)
    (hname : name ∈ g.nodes) (htarget : target ∈ dependenciesOf load name) : target ∈ g.nodes := by
  have hfound : g.nodes = followed (dependenciesOf load) main g.nodes := h.found
  rw [hfound]
  exact mem_followed.mpr (.inr ⟨name, hname, htarget⟩)

theorem Progress.covers (h : Progress load policy main g.nodes ⟨g, g.nodes, []⟩) {self : Bytes}
    (hself : self ∈ g.nodes) (hload : load self = .ok c) (hdeclared : c.name = .ok self)
    (hname : c.pool.NamesClass name) : Covers g name := by
  obtain ⟨i, hi⟩ := hname
  obtain ⟨c', hload', ⟨names, hnames⟩, _⟩ := h.collectable self hself
  cases hload.symm.trans hload'
  obtain ⟨type, htype, hcover⟩ := ClassFile.dependencies_cover hnames hdeclared hi
  refine ⟨type, htype, ?_⟩
  cases hclass : type.className? with
  | none => exact .inl (FieldType.isPrimitiveArray_of_ofClassName htype hclass)
  | some target =>
    refine .inr ⟨target, ?_, rfl⟩
    obtain rfl | htarget := hcover target hclass
    · exact hself
    · refine h.dependency_mem hself ?_
      simpa [dependenciesOf, hload, hnames, bind, Except.bind, Except.toOption] using htarget

end Collect

namespace Session

variable {σ : Type}

theorem Compiled.covers {options : SessionOptions} {main : Bytes} {later : Session}
    {compilation : Compilation} {classes : List ResolvedClass} {node : Cpp.Node}
    (h : Compiled options main later compilation classes node)
    (hlater : later.Consistent options.ignore) {name carried : Bytes} {c : ClassFile}
    {r : ResolvedClass} (hname : name ∈ compilation.order)
    (hc : later.classes.lookup name = some c) (hr : Resolver.resolve ⟨options.ignore⟩ c = .ok r)
    (hcarried : r.Carries carried) : Collect.Covers compilation.graph carried := by
  obtain ⟨hperm, -⟩ := Graph.topologicalOrder_ok h.progress.built.wellFormed h.order
  exact h.progress.covers (hperm.mem_iff.mp hname) (remembered_of_lookup hc) (hlater.declared hc)
    (Resolver.namesClass_of_resolve hr hcarried)

/-- Each class of the order was resolved, and whatever class it names through a class constant is
in the graph; only arrays of primitive values lead to no class. -/
theorem compile_covers_class_names (options : SessionOptions) (provider : Provider (StateM σ))
    (main : Bytes) {s later : Session} {world world' : σ} {compilation : Compilation}
    (hs : Reached options provider s)
    (hrun : ((compile options provider main).run.run s).run world =
      ((.ok compilation, later), world')) :
    ∀ name ∈ compilation.order, ∃ c r, later.classes.lookup name = some c ∧
      Resolver.resolve ⟨options.ignore⟩ c = .ok r ∧
      ∀ carried, r.Carries carried → Collect.Covers compilation.graph carried := by
  obtain ⟨hlater, -, hcompiled⟩ := compile_keeps provider main hs.consistent _ _ _ _ hrun
  obtain ⟨classes, node, hcompiled⟩ := hcompiled compilation rfl
  intro name hname
  obtain ⟨r, -, c, hc, hr⟩ := Result.exists_of_forall₂ hcompiled.resolved hname
  exact ⟨c, r, hc, hr, fun carried hcarried => hcompiled.covers hlater hname hc hr hcarried⟩

def casting : ClassFile :=
  { Collect.referring (text "A") (text "[[LB;") with
    pool := ⟨[none, some (.utf8 (text "A")), some (.classRef 1), some (.utf8 (text "[[LB;")),
      some (.classRef 3), some (.utf8 AttributeName.code), some (.utf8 (text "run")),
      some (.utf8 (text "()V"))]⟩
    methods := [{
      access := AccessFlags.isPublic, nameIndex := 6, descriptorIndex := 7
      attributes := [⟨5, [0, 1, 0, 1, 0, 0, 0, 4, 192, 0, 4, 177, 0, 0, 0, 0]⟩] }] }

def castingProvider : Provider (StateM Nat) where
  fetch name := do
    modify (· + 1)
    let c := if name = text "A" then casting else Collect.referring name name
    return .ok { data := c.encode }
  capacity := 2

def instructionRefs (r : ResolvedClass) : List Ref :=
  r.methods.flatMap fun m => m.code?.toList.flatMap fun body =>
    body.instructions.filterMap (·.ref)

theorem carries_of_mem_instructionRefs {r : ResolvedClass} {ref : Ref} {name : Bytes}
    (href : ref ∈ instructionRefs r) (hname : ref.className? = some name) : r.Carries name := by
  obtain ⟨m, hm, hcode⟩ := List.mem_flatMap.mp href
  obtain ⟨body, hbody, hinstructions⟩ := List.mem_flatMap.mp hcode
  obtain ⟨i, hi, href⟩ := List.mem_filterMap.mp hinstructions
  obtain ⟨a, ha, hsome⟩ := List.exists_of_findSome?_eq_some (Option.mem_toList.mp hbody)
  cases a with
  | code found =>
    cases hsome
    exact .method hm ha (.instruction hi href hname)
  | _ => cases hsome

theorem compile_covers_class_names_casting :
    ∃ compilation later requests r, Reached {} castingProvider {} ∧
      ((compile {} castingProvider (text "A")).run.run {}).run 0 =
        ((.ok compilation, later), requests) ∧
      compilation.order = [text "B", text "A"] ∧
      later.classes.lookup (text "A") = some casting ∧ Resolver.resolve ⟨[]⟩ casting = .ok r ∧
      r.Carries (text "[[LB;") ∧ Collect.Covers compilation.graph (text "[[LB;") := by
  have houtcome : (((compile {} castingProvider (text "A")).run.run {}).run 0).1.1.map
      Compilation.order = .ok [text "B", text "A"] ∧
      (((compile {} castingProvider (text "A")).run.run {}).run 0).1.2.classes.lookup (text "A") =
        some casting := by
    decide +kernel
  have hrefs : (Resolver.resolve ⟨[]⟩ casting).map instructionRefs =
      .ok [.type (text "[[LB;") (.array (.array (.object (text "B"))))] := by
    decide +kernel
  rcases hrun : ((compile {} castingProvider (text "A")).run.run {}).run 0 with
    ⟨⟨result, later⟩, requests⟩
  rw [hrun] at houtcome
  obtain ⟨horder, hlookup⟩ := houtcome
  cases result with
  | error e => cases horder
  | ok compilation =>
    have horder := Except.ok.inj horder
    obtain ⟨c, r, hc, hr, hcovers⟩ := compile_covers_class_names {} castingProvider (text "A")
      .fresh hrun (text "A") (by rw [horder]; decide)
    cases hlookup.symm.trans hc
    rw [hr] at hrefs
    have hcarries : r.Carries (text "[[LB;") :=
      carries_of_mem_instructionRefs ((Except.ok.inj hrefs).symm ▸ List.mem_singleton_self _) rfl
    exact ⟨compilation, later, requests, r, .fresh, rfl, horder, hlookup, hr, hcarries,
      hcovers _ hcarries⟩

end Session
end ClassHeader
