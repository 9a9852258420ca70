import ClassHeader.Proofs.Cpp.Distinct

/-!
# Structs and their bases

A header defines one struct for each of its classes, which derives from the bases of
that class and from nothing else.
-/

namespace ClassHeader.Cpp

def Item.defined? : Item → Option Place
  | .declared _ => none
  | .defined place => some place

namespace Node

mutual

/-- The structs that a tree inside some scopes defines, each with the names of its bases. -/
def structs (scopes : List Bytes) : Node → List (Place × List Bytes)
  | .file _ children | .access _ children | .block children | .group children
  | .statement children => structsOf scopes children
  | .scope path children => structsOf (scopes ++ path) children
  | .struct name bases children =>
    (⟨scopes, name⟩, bases) :: structsOf (scopes ++ [name]) children
  | .field _ _ (some init) _ => init.structs scopes
  | .function _ _ _ _ _ (some body) => structsOf scopes body
  | _ => []

def structsOf (scopes : List Bytes) : List Node → List (Place × List Bytes)
  | [] => []
  | node :: rest => node.structs scopes ++ structsOf scopes rest

end

theorem structsOf_eq_flatMap (scopes : List Bytes) (nodes : List Node) :
    structsOf scopes nodes = nodes.flatMap (structs scopes) := by
  induction nodes with
  | nil => simp [structsOf]
  | cons node nodes ih => rw [structsOf, ih, List.flatMap_cons]

mutual

theorem map_fst_structs (scopes : List Bytes) : (node : Node) →
    (node.structs scopes).map Prod.fst = (node.items scopes).filterMap Item.defined?
  | .file _ children | .access _ children | .block children | .group children
  | .statement children => by
    simp only [structs, items, map_fst_structsOf scopes children]
  | .scope path children => by
    simp only [structs, items, map_fst_structsOf (scopes ++ path) children]
  | .struct name bases children => by
    simp only [structs, items, List.map_cons, map_fst_structsOf (scopes ++ [name]) children]
    rfl
  | .field _ _ (some init) _ => by
    simp only [structs, items, map_fst_structs scopes init]
  | .function _ _ _ _ _ (some body) => by
    simp only [structs, items, map_fst_structsOf scopes body]
  | .forward _ => by
    simp only [structs, items]
    rfl
  | .includeFile _ _ | .comment _ | .verbatim _ | .identifier _ | .literal _ | .typeName _
  | .field _ _ none _ | .function _ _ _ _ _ none => by
    simp only [structs, items, List.map_nil, List.filterMap_nil]

theorem map_fst_structsOf (scopes : List Bytes) : (nodes : List Node) →
    (structsOf scopes nodes).map Prod.fst = (itemsOf scopes nodes).filterMap Item.defined?
  | [] => by simp only [structsOf, itemsOf, List.map_nil, List.filterMap_nil]
  | node :: rest => by
    simp only [structsOf, itemsOf, List.map_append, List.filterMap_append,
      map_fst_structs scopes node, map_fst_structsOf scopes rest]

end

/-- One struct of the tree has the other among its bases, both by their qualified names. -/
def Derives (node : Node) (name base : Bytes) : Prop :=
  ∃ struct ∈ node.structs [], struct.1.qualified = name ∧ base ∈ struct.2

end Node

open Header

variable {options : HeaderOptions} {node : Node}

theorem definition_structs {c : ResolvedClass} (h : definition options c = .ok node) :
    node.structs [] = [(.ofClass c.name, baseNames c)] := by
  have hplaces : (node.structs []).map Prod.fst = [.ofClass c.name] := by
    rw [node.map_fst_structs, (definition_ok h).2.1]
    rfl
  simp only [definition, Result.bind_ok_iff, Result.pure_ok_iff] at h
  obtain ⟨path, hpath, members, -, struct, hstruct, rfl⟩ := h
  obtain ⟨-, rfl⟩ := Node.scopePath_ok hpath
  rw [Node.makeStruct_ok hstruct] at hplaces ⊢
  simp only [Node.structs, Node.structsOf_eq_flatMap, List.flatMap_append,
    List.flatMap_singleton] at hplaces ⊢
  generalize (if c.sourceFile = [] then [] else _).flatMap (Node.structs _) = before at hplaces ⊢
  generalize List.flatMap _ _ = inside at hplaces ⊢
  -- There is one place in all, so no struct stands before the class or inside of it.
  have hone : before.length + (inside.length + 1) = 1 := by
    simpa using congrArg List.length hplaces
  obtain rfl : before = [] := List.eq_nil_of_length_eq_zero (by omega)
  obtain rfl : inside = [] := List.eq_nil_of_length_eq_zero (by omega)
  rfl

theorem header_structs {order : List Bytes} {classes : List ResolvedClass}
    (h : header options order classes = .ok node) :
    node.structs [] = classes.map fun c => (.ofClass c.name, baseNames c) := by
  obtain ⟨heading, declared, defined, hdeclared, hdefined, rfl⟩ := header_ok h
  have hnone : declared.flatMap (Node.structs []) = [] := by
    have hplaces := Node.map_fst_structsOf [] declared
    rw [(declarations_ok hdeclared).2.1, Node.structsOf_eq_flatMap] at hplaces
    refine List.map_eq_nil_iff.mp (hplaces.trans ?_)
    rw [List.filterMap_map, List.filterMap_eq_nil_iff]
    exact fun _ _ => rfl
  simp only [Node.structs, Node.structsOf_eq_flatMap, List.flatMap_append, hnone]
  rw [Result.flatMap_of_mapM hdefined fun c node hnode => definition_structs hnode,
    ← List.map_eq_flatMap]
  simp [opening, Node.structs]

/-- The structs of a header derive from the bases of their classes. -/
theorem header_derives_iff {order : List Bytes} {classes : List ResolvedClass}
    (h : header options order classes = .ok node) {name base : Bytes} :
    node.Derives name base ↔
      ∃ c ∈ classes, qualifiedName c.name = name ∧ base ∈ baseNames c := by
  simp only [Node.Derives, header_structs h, List.mem_map, exists_exists_and_eq_and,
    Place.qualified_ofClass]

end ClassHeader.Cpp
