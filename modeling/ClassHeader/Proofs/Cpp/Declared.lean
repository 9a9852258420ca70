import ClassHeader.Proofs.Cpp.Name
import ClassHeader.Proofs.Cpp.Render

/-!
# Declarations before uses

A header declares each class that it uses once, under the name that it uses, and
declares all of them before it defines the first. What a tree declares, defines
and uses is read off the finished tree: a declaration stands where the
namespaces around it put it, and the class of a type is found in its C++ text.
-/

namespace ClassHeader.Cpp

-- ---------------------------------------------------------------------------
-- Places of classes
-- ---------------------------------------------------------------------------

/-- Where a class stands: the scopes around it, from the outermost on, and its name in them. -/
structure Place where
  scopes : List Bytes
  name : Bytes
  deriving DecidableEq, Repr

namespace Place

def ofClass (className : Bytes) : Place :=
  { scopes := (packageParts (splitClassName className).1).map mangle
    name := mangle (splitClassName className).2 }

def qualified (place : Place) : Bytes :=
  (place.scopes ++ [place.name]).flatMap (text "::" ++ ·)

theorem qualified_ofClass (className : Bytes) :
    (ofClass className).qualified = qualifiedName className := by
  have hparts : (ofClass className).scopes ++ [(ofClass className).name] =
      (packageParts (splitClassName className).1 ++ [(splitClassName className).2]).map mangle := by
    rw [List.map_append]
    rfl
  rw [qualified, hparts, List.flatMap_map]
  rfl

end Place

inductive Item where
  | declared (place : Place)
  | defined (place : Place)
  deriving DecidableEq, Repr

namespace Node

mutual

/-- The classes that a tree inside some scopes declares and defines, in the order of the text. -/
def items (scopes : List Bytes) : Node → List Item
  | .file _ children | .access _ children | .block children | .group children
  | .statement children => itemsOf scopes children
  | .scope path children => itemsOf (scopes ++ path) children
  | .struct name _ children => .defined ⟨scopes, name⟩ :: itemsOf (scopes ++ [name]) children
  | .forward name => [.declared ⟨scopes, name⟩]
  | .field _ _ (some init) _ => init.items scopes
  | .function _ _ _ _ _ (some body) => itemsOf scopes body
  | _ => []

def itemsOf (scopes : List Bytes) : List Node → List Item
  | [] => []
  | node :: rest => node.items scopes ++ itemsOf scopes rest

end

theorem itemsOf_eq_flatMap (scopes : List Bytes) (nodes : List Node) :
    itemsOf scopes nodes = nodes.flatMap (items scopes) := by
  induction nodes with
  | nil => simp [itemsOf]
  | cons node nodes ih => rw [itemsOf, ih, List.flatMap_cons]

end Node

-- ---------------------------------------------------------------------------
-- Classes of types
-- ---------------------------------------------------------------------------

namespace TypeRef

def isNameByte (b : UInt8) : Bool := isIdentRest b || b = Ascii.colon

/-- The last name in the text of a type: that of an array's elements stands in its innermost
brackets. -/
def elementName (name : Bytes) : Bytes :=
  (name.rdropWhile fun b => !isNameByte b).rtakeWhile isNameByte

/-- The class of a type or of an array's elements. Only classes are named from the global scope
on. -/
def className? (t : TypeRef) : Option Bytes :=
  (some (elementName t.name)).filter (·.head? = some Ascii.colon)

theorem elementName_enclosed {front name back : Bytes} (hname : elementName name ≠ [])
    (hfront : ∀ b ∈ front.getLast?, isNameByte b = false)
    (hback : ∀ b ∈ back, isNameByte b = false) :
    elementName (front ++ name ++ back) = elementName name := by
  have hrest : ¬ (name.reverse.dropWhile fun b => !isNameByte b).isEmpty = true := by
    intro hempty
    rw [List.isEmpty_iff] at hempty
    simp [elementName, List.rdropWhile, hempty] at hname
  have hstop : front.reverse.takeWhile isNameByte = [] := by
    rw [← List.head?_reverse] at hfront
    cases hreverse : front.reverse with
    | nil => rfl
    | cons b rest =>
      rw [hreverse] at hfront
      exact List.takeWhile_cons_of_neg (by simp [hfront b rfl])
  -- Read backwards, all of `back` and a part of `name` is dropped and nothing of `front` is taken.
  simp only [elementName, List.rdropWhile, List.rtakeWhile, List.reverse_append,
    List.reverse_reverse]
  rw [List.dropWhile_append_of_pos (by simpa using hback), List.dropWhile_append, if_neg hrest,
    List.takeWhile_append, hstop, List.append_nil]
  split_ifs with hall
  · rw [(List.takeWhile_prefix _).eq_of_length hall]
  · rfl

theorem elementName_of_names {name : Bytes} (h : ∀ b ∈ name, isNameByte b = true) :
    elementName name = name := by
  have hdrop : (name.rdropWhile fun b => !isNameByte b) = name := by
    rw [List.rdropWhile_eq_self_iff]
    intro hne
    simp [h _ (List.getLast_mem hne)]
  rw [elementName, hdrop, List.rtakeWhile_eq_self_iff]
  exact h

theorem isNameByte_of_mem_qualifiedName {className : Bytes} {b : UInt8}
    (h : b ∈ qualifiedName className) : isNameByte b = true := by
  obtain ⟨part, -, hb⟩ := List.mem_flatMap.mp h
  rcases List.mem_append.mp hb with hcolon | hpart
  · rw [show text "::" = [Ascii.colon, Ascii.colon] by decide] at hcolon
    rw [show b = Ascii.colon by simpa using hcolon]
    decide
  · rw [isNameByte, isIdentRest_of_mem (isIdentifier_mangle part) hpart, Bool.true_or]

theorem head?_qualifiedName (className : Bytes) :
    (qualifiedName className).head? = some Ascii.colon := by
  rw [← Place.qualified_ofClass, Place.qualified, show text "::" = [Ascii.colon, Ascii.colon] by
    decide]
  cases (Place.ofClass className).scopes <;> rfl

theorem isNameByte_of_mem_primitiveName (type : Primitive) :
    ∀ b ∈ primitiveName type, isNameByte b = true := by
  rw [← List.all_eq_true]
  cases type <;> decide +kernel

theorem make_ok {name : Bytes} {flags : TypeFlags} {t : TypeRef} (h : make name flags = .ok t) :
    t = { name, flags } ∧ name ≠ [] := by
  simp only [make, Result.bind_ok_iff, Result.pure_ok_iff, Result.ensure_ok_iff] at h
  obtain ⟨_, hname, _, _, rfl⟩ := h
  exact ⟨rfl, hname⟩

theorem written_plain (name : Bytes) : (TypeRef.mk name 0).written = name := by
  simp [written, TypeFlags.has]

theorem written_pointer (name : Bytes) :
    (TypeRef.mk name TypeFlags.pointer).written = name ++ text "*" := by
  have hstatic : TypeFlags.pointer.has TypeFlags.static = false := by decide
  have hconst : TypeFlags.pointer.has TypeFlags.const = false := by decide
  have hpointer : TypeFlags.pointer.has TypeFlags.pointer = true := by decide
  simp [written, hstatic, hconst, hpointer]

theorem written_ofField {type : FieldType} {t : TypeRef} (h : ofField type = .ok t) :
    ∃ back, t.written = t.name ++ back ∧ ∀ b ∈ back, isNameByte b = false := by
  have hstar : ∀ b ∈ text "*", isNameByte b = false := by decide +kernel
  cases type with
  | primitive type =>
    rw [(make_ok h).1, written_plain]
    exact ⟨[], (List.append_nil _).symm, fun _ hb => by cases hb⟩
  | object className =>
    rw [(make_ok h).1, written_pointer]
    exact ⟨_, rfl, hstar⟩
  | array component =>
    simp only [ofField, Result.bind_ok_iff] at h
    obtain ⟨_, _, hmake⟩ := h
    rw [(make_ok hmake).1, written_pointer]
    exact ⟨_, rfl, hstar⟩

theorem ofField_elementName {type : FieldType} {t : TypeRef} (h : ofField type = .ok t) :
    elementName t.name ≠ [] ∧ t.className? = type.className?.map qualifiedName := by
  induction type generalizing t with
  | primitive type =>
    rw [className?, (make_ok h).1, elementName_of_names (isNameByte_of_mem_primitiveName type)]
    cases type <;> decide
  | object className =>
    obtain ⟨rfl, hname⟩ := make_ok h
    rw [className?, elementName_of_names fun b => isNameByte_of_mem_qualifiedName]
    exact ⟨hname, by simp [FieldType.className?, head?_qualifiedName]⟩
  | array component ih =>
    simp only [ofField, Result.bind_ok_iff] at h
    obtain ⟨element, helement, hmake⟩ := h
    obtain ⟨back, hwritten, hback⟩ := written_ofField helement
    obtain ⟨hne, hclass⟩ := ih helement
    have hbehind : ∀ b ∈ back ++ text ">", isNameByte b = false :=
      List.forall_mem_append.mpr ⟨hback, by decide +kernel⟩
    obtain ⟨rfl, -⟩ := make_ok hmake
    rw [className?, FieldType.className?, ← hclass, className?, hwritten]
    have hsame : ∀ front : Bytes, (∀ b ∈ front.getLast?, isNameByte b = false) →
        elementName (front ++ (element.name ++ back) ++ text ">") = elementName element.name := by
      intro front hfront
      rw [← List.append_assoc, List.append_assoc, elementName_enclosed hne hfront hbehind]
    -- With the blank or without it, the text before the element ends with no byte of a name.
    split_ifs
    · rw [hsame _ (by decide +kernel)]
      exact ⟨hne, rfl⟩
    · rw [hsame _ (by decide +kernel)]
      exact ⟨hne, rfl⟩

end TypeRef

-- ---------------------------------------------------------------------------
-- Uses of classes
-- ---------------------------------------------------------------------------

def Qualifies (names : Bytes → Prop) (used : Bytes) : Prop :=
  ∃ name, names name ∧ qualifiedName name = used

namespace Node

mutual

/-- The qualified names of the classes that a tree uses: as bases, and as classes of the types of
fields, parameters and results. -/
def uses : Node → List Bytes
  | .file _ children | .scope _ children | .access _ children | .block children
  | .group children | .statement children => usesOf children
  | .struct _ bases children => bases ++ usesOf children
  | .typeName type | .field type _ none _ => type.className?.toList
  | .field type _ (some init) _ => type.className?.toList ++ init.uses
  | .function result _ params _ _ none =>
    (result :: params.map (·.type)).filterMap TypeRef.className?
  | .function result _ params _ _ (some body) =>
    (result :: params.map (·.type)).filterMap TypeRef.className? ++ usesOf body
  | _ => []

def usesOf : List Node → List Bytes
  | [] => []
  | node :: rest => node.uses ++ usesOf rest

end

theorem usesOf_eq_flatMap (nodes : List Node) : usesOf nodes = nodes.flatMap uses := by
  induction nodes with
  | nil => simp [usesOf]
  | cons node nodes ih => rw [usesOf, ih, List.flatMap_cons]

/-- A part of a definition: it introduces no class and uses only classes among `names`. -/
structure Within (names : Bytes → Prop) (node : Node) : Prop where
  items : ∀ scopes, node.items scopes = []
  uses : ∀ used ∈ node.uses, Qualifies names used

variable {names : Bytes → Prop}

theorem comment_within (content : Bytes) : Within names (.comment content) where
  items _ := by simp [Node.items]
  uses _ h := by simp [Node.uses] at h

theorem itemsOf_within {nodes : List Node} (h : ∀ node ∈ nodes, Within names node)
    (scopes : List Bytes) : itemsOf scopes nodes = [] := by
  rw [itemsOf_eq_flatMap, List.flatMap_eq_nil_iff]
  exact fun node hnode => (h node hnode).items scopes

theorem usesOf_within {nodes : List Node} (h : ∀ node ∈ nodes, Within names node) :
    ∀ used ∈ usesOf nodes, Qualifies names used := by
  intro used hused
  rw [usesOf_eq_flatMap] at hused
  obtain ⟨node, hnode, hused⟩ := List.mem_flatMap.mp hused
  exact (h node hnode).uses used hused

theorem access_within {nodes : List Node} (h : ∀ node ∈ nodes, Within names node)
    (label : Bytes) : Within names (.access label nodes) where
  items scopes := by simpa only [Node.items] using itemsOf_within h scopes
  uses := by simpa only [Node.uses] using usesOf_within h

theorem makeLiteral_within {value : Value} {node : Node} (h : makeLiteral value = .ok node) :
    Within names node := by
  simp only [makeLiteral, Result.bind_ok_iff, Result.pure_ok_iff] at h
  obtain ⟨_, _, rfl⟩ := h
  exact ⟨fun _ => by simp [Node.items], fun _ hused => by simp [Node.uses] at hused⟩

theorem makeField_ok {type : TypeRef} {name : Bytes} {init : Option Node} {constexpr : Bool}
    {node : Node} (h : makeField (some type) name init constexpr = .ok node) :
    node = .field type name init constexpr := by
  simp only [makeField, Result.bind_ok_iff, Result.pure_ok_iff] at h
  obtain ⟨_, _, rfl⟩ := h
  rfl

theorem makeParam_ok {function name : Bytes} {type : TypeRef} {param : Param}
    (h : makeParam function (some type) name = .ok param) : param = { type, name } := by
  simp only [makeParam, Result.bind_ok_iff, Result.pure_ok_iff] at h
  obtain ⟨_, _, rfl⟩ := h
  rfl

theorem makeFunction_ok {result : TypeRef} {name : Bytes} {params : List (Option TypeRef × Bytes)}
    {isVirtual isPure : Bool} {body : Option (List Node)} {node : Node}
    (h : makeFunction (some result) name params isVirtual isPure body = .ok node) :
    ∃ made, params.mapM (fun (type, param) => makeParam name type param) = .ok made ∧
      node = .function result name made isVirtual isPure body := by
  simp only [makeFunction, Result.bind_ok_iff, Result.pure_ok_iff] at h
  obtain ⟨_, _, made, hmade, rfl⟩ := h
  exact ⟨made, hmade, rfl⟩

theorem scopePath_ok {package : Bytes} {path : List Bytes} (h : Node.scopePath package = .ok path) :
    [] ∉ packageParts package ∧ path = (packageParts package).map mangle := by
  simp only [Node.scopePath, Result.bind_ok_iff, Result.ensure_ok_iff, Result.pure_ok_iff] at h
  obtain ⟨_, hparts, rfl⟩ := h
  exact ⟨hparts, rfl⟩

end Node

/-- The classes that a class names: its superclass unless it has none, its interfaces and the
classes of the types of its members. -/
inductive Mentions (c : ResolvedClass) : Bytes → Prop
  | superclass (h : c.superName ≠ []) : Mentions c c.superName
  | interface {name : Bytes} (h : name ∈ c.interfaces) : Mentions c name
  | field {f : ResolvedField} {name : Bytes} (hf : f ∈ c.fields)
    (h : f.type.className? = some name) : Mentions c name
  | argument {m : ResolvedMethod} {type : FieldType} {name : Bytes} (hm : m ∈ c.methods)
    (ht : type ∈ m.type.args) (h : type.className? = some name) : Mentions c name
  | result {m : ResolvedMethod} {type : FieldType} {name : Bytes} (hm : m ∈ c.methods)
    (ht : m.type.result = some type) (h : type.className? = some name) : Mentions c name

namespace Header

open Node

variable {options : HeaderOptions} {c : ResolvedClass} {names : Bytes → Prop}

theorem stored_className? {access : AccessFlags} {type t : TypeRef}
    (h : stored access type = .ok t) : t.className? = type.className? := by
  rcases Result.ite_ok h with hstatic | hplain
  · rw [TypeRef.addFlags] at hstatic
    rw [(TypeRef.make_ok hstatic).1]
    rfl
  · cases hplain
    rfl

theorem ofField_qualifies {type : FieldType} {t : TypeRef} (h : TypeRef.ofField type = .ok t)
    (hnames : ∀ name ∈ type.className?, names name) :
    ∀ used ∈ t.className?, Qualifies names used := by
  intro used hused
  rw [(TypeRef.ofField_elementName h).2] at hused
  obtain ⟨name, hname, rfl⟩ := Option.map_eq_some_iff.mp hused
  exact ⟨name, hnames name hname, rfl⟩

theorem field_within {f : ResolvedField} {name : Bytes} {nodes : List Node} (hf : f ∈ c.fields)
    (h : field f name = .ok nodes) : ∀ node ∈ nodes, Within (Mentions c) node := by
  simp only [field, Result.bind_ok_iff] at h
  obtain ⟨written, hwritten, type, htype, plain, hplain, h⟩ := h
  have hused : ∀ used ∈ type.className?.toList, Qualifies (Mentions c) used := by
    rw [stored_className? htype]
    simpa using ofField_qualifies hwritten fun name hname => .field hf hname
  have hplainWithin : Within (Mentions c) plain := by
    rw [makeField_ok hplain]
    exact ⟨fun _ => by simp [Node.items], by simpa only [Node.uses] using hused⟩
  split at h
  · cases h
    simpa using hplainWithin
  · cases h
    simpa using ⟨comment_within _, hplainWithin⟩
  · simp only [Result.bind_ok_iff, Result.pure_ok_iff] at h
    obtain ⟨init, hinit, node, hnode, rfl⟩ := h
    have hinitWithin : Within (Mentions c) init := makeLiteral_within hinit
    rw [makeField_ok hnode]
    refine List.forall_mem_singleton.mpr ⟨fun scopes => ?_, ?_⟩
    · simp only [Node.items, hinitWithin.items]
    · simp only [Node.uses, List.forall_mem_append]
      exact ⟨hused, hinitWithin.uses⟩

theorem returnZero_within {result : Option FieldType} {node : Node}
    (h : returnZero result = .ok node) : Within names node := by
  simp only [returnZero, Result.bind_ok_iff, Result.pure_ok_iff] at h
  obtain ⟨values, hvalues, rfl⟩ := h
  have hparts : ∀ part ∈ Node.identifier (text "return") :: values, Within names part := by
    refine List.forall_mem_cons.mpr ⟨⟨fun _ => ?_, fun _ hused => ?_⟩, fun value hvalue => ?_⟩
    · simp [Node.items]
    · simp [Node.uses] at hused
    · obtain ⟨_, _, hmade⟩ := Result.exists_of_mem_mapM hvalues hvalue
      exact makeLiteral_within hmade
  refine ⟨fun scopes => ?_, ?_⟩
  · simpa only [Node.items] using itemsOf_within hparts scopes
  · simpa only [Node.uses] using usesOf_within hparts

theorem methodBody_within {inInterface : Bool} {m : ResolvedMethod} {body : List Node}
    (h : methodBody options inInterface m = .ok (some body)) :
    ∀ node ∈ body, Within names node := by
  unfold methodBody at h
  split at h
  · rcases Result.ite_ok h with hpure | hbody
    · cases hpure
    · simp only [Result.bind_ok_iff, Result.pure_ok_iff, Option.some.injEq] at hbody
      obtain ⟨last, hlast, rfl⟩ := hbody
      refine List.forall_mem_append.mpr ⟨fun node hnode => ?_, ?_⟩
      · split_ifs at hnode
        · rcases List.mem_append.mp hnode with hnode | hnode
          · obtain ⟨_, _, rfl⟩ := List.mem_map.mp hnode
            exact comment_within _
          · obtain ⟨_, _, rfl⟩ := List.mem_map.mp hnode
            exact comment_within _
        · cases hnode
      · exact List.forall_mem_singleton.mpr (returnZero_within hlast)
  · cases h

theorem ofResult_qualifies {type : Option FieldType} {t : TypeRef}
    (h : TypeRef.ofResult type = .ok t)
    (hnames : ∀ name ∈ type.bind FieldType.className?, names name) :
    ∀ used ∈ t.className?, Qualifies names used := by
  cases type with
  | none =>
    have hvoid : TypeRef.className? ⟨text "void", 0⟩ = none := by decide +kernel
    rw [(TypeRef.make_ok h).1, hvoid]
    rintro _ ⟨⟩
  | some type => exact ofField_qualifies h hnames

theorem params_qualify {m : ResolvedMethod} {name : Bytes} {types : List TypeRef}
    {params : List Param} (hm : m ∈ c.methods)
    (htypes : m.type.args.mapM TypeRef.ofField = .ok types)
    (hparams : ((types.map some).zip (paramNames m)).mapM
      (fun (type, param) => makeParam name type param) = .ok params) :
    ∀ param ∈ params, ∀ used ∈ param.type.className?, Qualifies (Mentions c) used := by
  intro param hparam
  obtain ⟨⟨type?, paramName⟩, hpair, hmade⟩ := Result.exists_of_mem_mapM hparams hparam
  obtain ⟨type, htype, rfl⟩ := List.mem_map.mp (List.of_mem_zip hpair).1
  obtain ⟨arg, harg, hof⟩ := Result.exists_of_mem_mapM htypes htype
  rw [makeParam_ok hmade]
  exact ofField_qualifies hof fun name hname => .argument hm harg hname

theorem method_within {inInterface : Bool} {m : ResolvedMethod} {name : Bytes} {node : Node}
    (hm : m ∈ c.methods) (h : method options inInterface m name = .ok node) :
    Within (Mentions c) node := by
  simp only [method, Result.bind_ok_iff] at h
  obtain ⟨written, hwritten, result, hresult, types, htypes, body, hbody, h⟩ := h
  obtain ⟨params, hparams, rfl⟩ := makeFunction_ok h
  have hsignature : ∀ used ∈ (result :: params.map (·.type)).filterMap TypeRef.className?,
      Qualifies (Mentions c) used := by
    intro used hused
    obtain ⟨type, htype, hclass⟩ := List.mem_filterMap.mp hused
    rcases List.mem_cons.mp htype with rfl | htype
    · rw [stored_className? hresult] at hclass
      refine ofResult_qualifies hwritten (fun name hname => ?_) used hclass
      obtain ⟨type, htype, hname⟩ := Option.bind_eq_some_iff.mp hname
      exact .result hm htype hname
    · obtain ⟨param, hparam, rfl⟩ := List.mem_map.mp htype
      exact params_qualify hm htypes hparams param hparam used hclass
  cases body with
  | none => exact ⟨fun _ => by simp [Node.items], by simpa only [Node.uses] using hsignature⟩
  | some body =>
    have hbodyWithin : ∀ node ∈ body, Within (Mentions c) node := methodBody_within hbody
    refine ⟨fun scopes => ?_, ?_⟩
    · simpa only [Node.items] using itemsOf_within hbodyWithin scopes
    · simp only [Node.uses, List.forall_mem_append]
      exact ⟨hsignature, usesOf_within hbodyWithin⟩

theorem members_within {nodes : List Node} (h : members options c = .ok nodes) :
    ∀ node ∈ nodes, Within (Mentions c) node := by
  simp only [members, Result.bind_ok_iff, Result.pure_ok_iff] at h
  obtain ⟨fields, hfields, methods, hmethods, rfl⟩ := h
  intro node hnode
  rcases List.mem_append.mp hnode with hnode | hnode
  · obtain ⟨nodes, hnodes, hnode⟩ := List.mem_flatten.mp hnode
    obtain ⟨⟨f, name⟩, hpair, hmade⟩ := Result.exists_of_mem_mapM hfields hnodes
    exact field_within (List.of_mem_zip hpair).1 hmade node hnode
  · obtain ⟨⟨m, name⟩, hpair, hmade⟩ := Result.exists_of_mem_mapM hmethods hnode
    exact method_within (List.of_mem_zip hpair).1 (Result.mapError_ok_iff.mp hmade)

theorem baseNames_qualify : ∀ base ∈ baseNames c, Qualifies (Mentions c) base := by
  intro base hbase
  obtain ⟨name, hname, rfl⟩ := List.mem_map.mp hbase
  refine ⟨name, ?_, rfl⟩
  rcases List.mem_append.mp hname with hsuper | hinterface
  · split_ifs at hsuper with hnone
    · cases hsuper
    · rw [List.mem_singleton.mp hsuper]
      exact .superclass fun h => hnone (.inl h)
  · exact .interface hinterface

theorem definition_ok {node : Node} (h : definition options c = .ok node) :
    [] ∉ packageParts (splitClassName c.name).1 ∧
      node.items [] = [.defined (.ofClass c.name)] ∧
      ∀ used ∈ node.uses, Qualifies (Mentions c) used := by
  simp only [definition, Result.bind_ok_iff, Result.pure_ok_iff] at h
  obtain ⟨path, hpath, nodes, hnodes, struct, hstruct, rfl⟩ := h
  obtain ⟨hparts, rfl⟩ := scopePath_ok hpath
  rw [makeStruct_ok hstruct]
  -- Apart from the struct itself, nothing in the definition introduces a class.
  generalize horigin : (if c.sourceFile = [] then []
    else [Node.comment (c.name ++ text " (" ++ c.sourceFile ++ text ")")]) = origin
  generalize hchildren : (if nodes.isEmpty then []
    else [some (Node.access (text "public") nodes)]).filterMap id = children
  have horiginWithin : ∀ node ∈ origin, Within (Mentions c) node := by
    rw [← horigin]
    split_ifs
    · rintro _ ⟨⟩
    · exact List.forall_mem_singleton.mpr (comment_within _)
  have hchildrenWithin : ∀ node ∈ children, Within (Mentions c) node := by
    rw [← hchildren]
    split_ifs
    · rintro _ ⟨⟩
    · exact List.forall_mem_singleton.mpr (access_within (members_within hnodes) _)
  refine ⟨hparts, ?_, ?_⟩
  · simp only [Node.items, itemsOf_eq_flatMap, List.flatMap_append, List.flatMap_singleton]
    rw [← itemsOf_eq_flatMap, ← itemsOf_eq_flatMap, itemsOf_within horiginWithin,
      itemsOf_within hchildrenWithin]
    rfl
  · simp only [Node.uses, usesOf_eq_flatMap, List.flatMap_append, List.flatMap_singleton,
      List.forall_mem_append]
    rw [← usesOf_eq_flatMap, ← usesOf_eq_flatMap]
    exact ⟨usesOf_within horiginWithin, baseNames_qualify, usesOf_within hchildrenWithin⟩

-- ---------------------------------------------------------------------------
-- Declared classes
-- ---------------------------------------------------------------------------

theorem mem_mentions {name : Bytes} (h : Mentions c name) : name ∈ mentions c := by
  simp only [mentions, List.mem_append, List.mem_cons, List.mem_filterMap, List.mem_flatMap,
    Option.mem_toList]
  cases h with
  | superclass => exact .inl (.inl (.inl rfl))
  | interface hinterface => exact .inl (.inl (.inr hinterface))
  | field hf hclass => exact .inl (.inr ⟨_, hf, hclass⟩)
  | argument hm htype hclass => exact .inr ⟨_, hm, _, .inl htype, hclass⟩
  | result hm htype hclass => exact .inr ⟨_, hm, _, .inr htype, hclass⟩

theorem mentions_of_mem {name : Bytes} (h : name ∈ mentions c) (hname : name ≠ []) :
    Mentions c name := by
  simp only [mentions, List.mem_append, List.mem_cons, List.mem_filterMap, List.mem_flatMap,
    Option.mem_toList] at h
  rcases h with ((rfl | hinterface) | ⟨f, hf, hclass⟩) | ⟨m, hm, type, htype | htype, hclass⟩
  · exact .superclass hname
  · exact .interface hinterface
  · exact .field hf hclass
  · exact .argument hm htype hclass
  · exact .result hm htype hclass

theorem mem_declaredNames {order : List Bytes} {classes : List ResolvedClass} {name : Bytes} :
    name ∈ declaredNames order classes ↔
      name ≠ [] ∧ (name ∈ order ∨ ∃ c ∈ classes, Mentions c name) := by
  simp only [declaredNames, List.mem_eraseDups, List.mem_filter, List.mem_append,
    List.mem_flatMap, decide_eq_true_eq, and_comm]
  refine and_congr_right fun hname => or_congr_right (exists_congr fun c => ?_)
  exact and_congr_right fun _ => ⟨fun h => mentions_of_mem h hname, mem_mentions⟩

/-- The names of one package after those of another. -/
def grouped (names : List Bytes) : List Bytes :=
  (names.map fun name => (splitClassName name).1).eraseDups.flatMap fun package =>
    names.filter fun name => (splitClassName name).1 = package

theorem mem_grouped {names : List Bytes} {name : Bytes} : name ∈ grouped names ↔ name ∈ names := by
  simp only [grouped, List.mem_flatMap, List.mem_eraseDups, List.mem_map, List.mem_filter,
    decide_eq_true_eq]
  exact ⟨fun ⟨_, _, h, _⟩ => h, fun h => ⟨_, ⟨name, h, rfl⟩, h, rfl⟩⟩

theorem nodup_eraseDups : (names : List Bytes) → names.eraseDups.Nodup
  | [] => List.nodup_nil
  | name :: names => by
    rw [List.eraseDups_cons, List.nodup_cons, List.mem_eraseDups]
    exact ⟨by simp, nodup_eraseDups _⟩
termination_by names => names.length
decreasing_by exact Nat.lt_succ_of_le (List.length_filter_le _ _)

theorem nodup_grouped {names : List Bytes} (h : names.Nodup) : (grouped names).Nodup := by
  rw [grouped, List.nodup_flatMap]
  refine ⟨fun _ _ => h.filter _, (nodup_eraseDups _).imp fun hne name hname hother => hne ?_⟩
  rw [List.mem_filter, decide_eq_true_iff] at hname hother
  rw [← hname.2, ← hother.2]

theorem makeScope_forwards {package : Bytes} {names : List Bytes} {node : Node}
    (h : makeScope package ((names.filter fun name => (splitClassName name).1 = package).map
      fun name => some (.forward (mangle (splitClassName name).2))) = .ok node) :
    [] ∉ packageParts package ∧
      node.items [] = (names.filter fun name => (splitClassName name).1 = package).map
        (.declared <| .ofClass ·) ∧
      node.uses = [] := by
  simp only [makeScope, Result.bind_ok_iff, Result.pure_ok_iff] at h
  obtain ⟨path, hpath, children, hchildren, rfl⟩ := h
  obtain ⟨hparts, rfl⟩ := scopePath_ok hpath
  obtain rfl : _ = children := by
    simpa only [List.nil_append, List.filterMap_map, Function.comp_def, id_eq,
      List.filterMap_eq_map'] using (adopt_ok hchildren).symm
  simp only [Node.items, Node.uses, itemsOf_eq_flatMap, usesOf_eq_flatMap, List.nil_append,
    List.flatMap_map]
  refine ⟨hparts, ?_, by simp⟩
  rw [← List.map_eq_flatMap]
  refine List.map_congr_left fun name hname => ?_
  rw [Place.ofClass, of_decide_eq_true (List.mem_filter.mp hname).2]

theorem declarations_ok {names : List Bytes} {nodes : List Node}
    (h : declarations names = .ok nodes) :
    (∀ name ∈ names, [] ∉ packageParts (splitClassName name).1) ∧
      itemsOf [] nodes = (grouped names).map (.declared <| .ofClass ·) ∧ usesOf nodes = [] := by
  refine ⟨fun name hname => ?_, ?_, ?_⟩
  · have hpackage : (splitClassName name).1 ∈
        (names.map fun name => (splitClassName name).1).eraseDups :=
      List.mem_eraseDups.mpr (List.mem_map_of_mem hname)
    obtain ⟨node, _, hnode⟩ := Result.exists_mem_of_mapM h hpackage
    exact (makeScope_forwards hnode).1
  · rw [itemsOf_eq_flatMap, grouped, List.map_flatMap]
    exact Result.flatMap_of_mapM h fun package node hnode => (makeScope_forwards hnode).2.1
  · rw [usesOf_eq_flatMap, List.flatMap_eq_nil_iff]
    intro node hnode
    obtain ⟨package, _, hnode⟩ := Result.exists_of_mem_mapM h hnode
    exact (makeScope_forwards hnode).2.2

theorem exists_scopePath {package : Bytes} (h : [] ∉ packageParts package) :
    ∃ path, Node.scopePath package = .ok path :=
  ⟨_, Result.bind_ok_iff.mpr ⟨(), Result.ensure_ok_iff.mpr h, rfl⟩⟩

theorem exists_declarations {names : List Bytes}
    (h : ∀ name ∈ names, [] ∉ packageParts (splitClassName name).1) :
    ∃ nodes, declarations names = .ok nodes := by
  refine Result.exists_mapM fun package hpackage => ?_
  obtain ⟨name, hname, rfl⟩ := List.mem_map.mp (List.mem_eraseDups.mp hpackage)
  obtain ⟨path, hpath⟩ := exists_scopePath (h name hname)
  -- All children are there, so none of them is refused.
  have hpresent : ∀ declared : List Bytes, (declared.map fun name =>
      some (Node.forward (mangle (splitClassName name).2))).findIdx? Option.isNone = none := by
    simp
  simp only [makeScope, hpath, adopt, hpresent, Result.ok_bind]
  exact ⟨_, rfl⟩

end Header

section

variable {options : HeaderOptions} {order : List Bytes} {classes : List ResolvedClass} {node : Node}

open Header

theorem header_items (h : header options order classes = .ok node) :
    node.items [] = (grouped (declaredNames order classes)).map (.declared <| .ofClass ·) ++
      classes.map (.defined <| .ofClass ·.name) := by
  obtain ⟨heading, declared, defined, hdeclared, hdefined, rfl⟩ := header_ok h
  have hdefinitions := Result.flatMap_of_mapM hdefined fun c node hnode =>
    (definition_ok hnode).2.1
  simp only [Node.items, Node.itemsOf_eq_flatMap, List.flatMap_append]
  rw [← Node.itemsOf_eq_flatMap, ← Node.itemsOf_eq_flatMap, (declarations_ok hdeclared).2.1,
    hdefinitions, ← List.map_eq_flatMap]
  simp [opening, Node.itemsOf, Node.items]

theorem header_uses (h : header options order classes = .ok node) :
    ∀ used ∈ node.uses, ∃ c ∈ classes, Qualifies (Mentions c) used := by
  obtain ⟨heading, declared, defined, hdeclared, hdefined, rfl⟩ := header_ok h
  intro used hused
  simp only [Node.uses, Node.usesOf_eq_flatMap, List.flatMap_append, List.mem_append] at hused
  rcases hused with (hopening | hdeclaration) | hdefinition
  · simp [opening, Node.uses] at hopening
  · rw [← Node.usesOf_eq_flatMap, (declarations_ok hdeclared).2.2] at hdeclaration
    cases hdeclaration
  · obtain ⟨d, hd, hused⟩ := List.mem_flatMap.mp hdefinition
    obtain ⟨c, hc, hok⟩ := Result.exists_of_mem_mapM hdefined hd
    exact ⟨c, hc, (definition_ok hok).2.2 used hused⟩

/-- Nothing but the names and the classes themselves can keep a header from being built, so some of
them in any order make one as well. -/
theorem exists_header_of_subset (h : header options order classes = .ok node)
    {order' : List Bytes} {classes' : List ResolvedClass} (horder : order' ⊆ order)
    (hclasses : classes' ⊆ classes) : ∃ node', header options order' classes' = .ok node' := by
  obtain ⟨heading, declared, defined, hdeclared, hdefined, -⟩ := header_ok h
  have hpackages : ∀ name ∈ declaredNames order' classes',
      [] ∉ packageParts (splitClassName name).1 := by
    intro name hname
    obtain ⟨hne, hmem⟩ := mem_declaredNames.mp hname
    refine (declarations_ok hdeclared).1 name (mem_declaredNames.mpr ⟨hne, ?_⟩)
    exact hmem.imp (horder ·) fun ⟨c, hc, hmentions⟩ => ⟨c, hclasses hc, hmentions⟩
  have hdefinable : ∀ c ∈ classes', ∃ d,
      (definition options c).mapError (·.withClass .codegen c.name) = .ok d := by
    intro c hc
    obtain ⟨d, -, hd⟩ := Result.exists_mem_of_mapM hdefined (hclasses hc)
    exact ⟨d, Result.mapError_ok_iff.mpr hd⟩
  obtain ⟨declared', hdeclared'⟩ := exists_declarations hpackages
  obtain ⟨defined', hdefined'⟩ := Result.exists_mapM hdefinable
  rw [header, hdeclared', Result.ok_bind, hdefined']
  exact ⟨_, rfl⟩

end

/-- Every class that a header uses is declared in it under the very name that is used, each class
of the order and each that a class names is declared once, nothing else is, and all declarations
stand before the first definition. -/
theorem header_declares_used_classes {options : HeaderOptions} {order : List Bytes}
    {classes : List ResolvedClass} {node : Node} (h : header options order classes = .ok node)
    (horder : [] ∉ order) (hclasses : ∀ c ∈ classes, ¬ Mentions c []) :
    ∃ declared : List Bytes, declared.Nodup ∧
      (∀ name, name ∈ declared ↔ name ∈ order ∨ ∃ c ∈ classes, Mentions c name) ∧
      node.items [] = declared.map (.declared <| .ofClass ·) ++
        classes.map (.defined <| .ofClass ·.name) ∧
      ∀ used ∈ node.uses, ∃ name ∈ declared, (Place.ofClass name).qualified = used := by
  have hmem : ∀ name, name ∈ Header.grouped (Header.declaredNames order classes) ↔
      name ∈ order ∨ ∃ c ∈ classes, Mentions c name := by
    intro name
    rw [Header.mem_grouped, Header.mem_declaredNames, and_iff_right_iff_imp]
    rintro (hname | ⟨c, hc, hname⟩) rfl
    · exact horder hname
    · exact hclasses c hc hname
  refine ⟨_, Header.nodup_grouped (Header.nodup_eraseDups _), hmem, header_items h, ?_⟩
  intro used hused
  obtain ⟨c, hc, name, hname, rfl⟩ := header_uses h used hused
  exact ⟨name, (hmem name).mpr (.inr ⟨c, hc, hname⟩), Place.qualified_ofClass name⟩

def wired : ResolvedClass where
  name := text "a/B"
  superName := text "java/lang/Object"
  sourceFile := []
  interfaces := [text "I"]
  fields := [⟨text "grid", .array (.array (.object (text "p/Q"))), AccessFlags.isPublic, []⟩]
  methods := [⟨text "run", ⟨[.primitive .int, .object (text "a/B")],
    some (.array (.object (text "p/R")))⟩, AccessFlags.isAbstract, []⟩]
  attributes := []
  access := AccessFlags.isPublic
  major := 52
  minor := 0

theorem header_declares_used_classes_wired :
    ∃ node, header {} [text "a/B"] [wired] = .ok node ∧ [] ∉ [text "a/B"] ∧
      (∀ c ∈ [wired], ¬ Mentions c []) ∧
      node.uses = [text "::java::lang::Object", text "::I", text "::p::Q", text "::p::R",
        text "::a::B"] ∧
      ∃ declared : List Bytes, declared.Nodup ∧
        (∀ name, name ∈ declared ↔ name ∈ [text "a/B"] ∨ ∃ c ∈ [wired], Mentions c name) ∧
        node.items [] = declared.map (.declared <| .ofClass ·) ++
          [wired].map (.defined <| .ofClass ·.name) ∧
        ∀ used ∈ node.uses, ∃ name ∈ declared, (Place.ofClass name).qualified = used := by
  have huses : (header {} [text "a/B"] [wired]).map Node.uses =
      .ok [text "::java::lang::Object", text "::I", text "::p::Q", text "::p::R",
        text "::a::B"] := by
    decide +kernel
  have horder : [] ∉ [text "a/B"] := by decide
  have hclasses : ∀ c ∈ [wired], ¬ Mentions c [] := by
    refine List.forall_mem_singleton.mpr fun h => ?_
    have hmem := Header.mem_mentions h
    revert hmem
    decide +kernel
  cases hnode : header {} [text "a/B"] [wired] with
  | error e =>
    rw [hnode] at huses
    cases huses
  | ok node =>
    rw [hnode] at huses
    exact ⟨node, rfl, horder, hclasses, Except.ok.inj huses,
      header_declares_used_classes hnode horder hclasses⟩

end ClassHeader.Cpp
