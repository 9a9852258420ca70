import ClassHeader.Proofs.Cpp.Distinct
import ClassHeader.Proofs.Cpp.Lines
import ClassHeader.Proofs.Cpp.Literal
import ClassHeader.Proofs.Cpp.Parameters

/-!
# Lines of a header

Every part of a header stands on lines of its own, whatever the classes are: names
are identifiers and values are written on one line, and all other text stands in
comments. So the text of a header is made of the lines of its tree.
-/

namespace ClassHeader.Cpp.Layout

-- ---------------------------------------------------------------------------
-- Trees of a header
-- ---------------------------------------------------------------------------

theorem newline_notMem_identifier {name : Bytes} (h : isIdentifier name = true) :
    Ascii.newline ∉ name :=
  fun hmem => absurd (isIdentRest_of_mem h hmem) (by decide)

theorem newline_notMem_qualifiedName (className : Bytes) :
    Ascii.newline ∉ qualifiedName className :=
  fun hmem => absurd (TypeRef.isNameByte_of_mem_qualifiedName hmem) (by decide)

theorem newline_notMem_ofField {type : FieldType} {t : TypeRef} (h : TypeRef.ofField type = .ok t) :
    Ascii.newline ∉ t.name := by
  induction type generalizing t with
  | primitive type =>
    rw [(TypeRef.make_ok h).1]
    exact fun hmem => absurd (TypeRef.isNameByte_of_mem_primitiveName type _ hmem) (by decide)
  | object className =>
    rw [(TypeRef.make_ok h).1]
    exact newline_notMem_qualifiedName className
  | array component ih =>
    simp only [TypeRef.ofField, Result.bind_ok_iff] at h
    obtain ⟨element, helement, hmake⟩ := h
    rw [(TypeRef.make_ok hmake).1]
    refine List.not_mem_append (List.not_mem_append (List.not_mem_append (by decide) ?_)
      (newline_notMem_type (ih helement))) (by decide)
    split_ifs <;> decide

theorem newline_notMem_ofResult {type : Option FieldType} {t : TypeRef}
    (h : TypeRef.ofResult type = .ok t) : Ascii.newline ∉ t.name := by
  cases type with
  | none =>
    rw [(TypeRef.make_ok h).1]
    decide
  | some type => exact newline_notMem_ofField h

theorem newline_notMem_stored {access : AccessFlags} {type t : TypeRef}
    (h : Header.stored access type = .ok t) (htype : Ascii.newline ∉ type.name) :
    Ascii.newline ∉ t.name := by
  rcases Result.ite_ok h with hstatic | hplain
  · rw [TypeRef.addFlags] at hstatic
    rwa [(TypeRef.make_ok hstatic).1]
  · cases hplain
    exact htype

theorem inline_makeLiteral {value : Value} {node : Node} (h : Node.makeLiteral value = .ok node) :
    Inline node := by
  simp only [Node.makeLiteral, Result.bind_ok_iff, Result.pure_ok_iff] at h
  obtain ⟨_, hwritten, rfl⟩ := h
  exact Literal.newline_notMem_written hwritten

variable {depth : Nat}

theorem laid_makeField {type : TypeRef} {name : Bytes} {init : Option Node} {constexpr : Bool}
    {node : Node} (h : Node.makeField (some type) name init constexpr = .ok node)
    (htype : Ascii.newline ∉ type.name) (hinit : ∀ value ∈ init, Inline value) :
    Laid depth node := by
  simp only [Node.makeField, Result.bind_ok_iff, Result.ensure_ok_iff, Result.pure_ok_iff] at h
  obtain ⟨_, hname, rfl⟩ := h
  exact .field htype (newline_notMem_identifier hname) hinit

theorem laid_makeFunction {result : TypeRef} {name : Bytes}
    {params : List (Option TypeRef × Bytes)} {isVirtual isPure : Bool}
    {body : Option (List Node)} {node : Node}
    (h : Node.makeFunction (some result) name params isVirtual isPure body = .ok node)
    (hresult : Ascii.newline ∉ result.name)
    (hparams : ∀ param ∈ params, ∀ type ∈ param.1, Ascii.newline ∉ type.name)
    (hbody : ∀ nodes ∈ body, ∀ node ∈ nodes, Laid (depth + 1) node) : Laid depth node := by
  simp only [Node.makeFunction, Result.bind_ok_iff, Result.ensure_ok_iff, Result.pure_ok_iff] at h
  obtain ⟨_, hname, made, hmade, rfl⟩ := h
  refine .function hresult (newline_notMem_identifier hname) (fun param hparam => ?_) hbody
  obtain ⟨⟨type?, paramName⟩, hgiven, hone⟩ := Result.exists_of_mem_mapM hmade hparam
  cases type? with
  | none => cases hone
  | some type =>
    simp only [Node.makeParam, Result.bind_ok_iff, Result.ensure_ok_iff,
      Result.pure_ok_iff] at hone
    obtain ⟨_, hparamName, rfl⟩ := hone
    exact ⟨hparams _ hgiven type rfl, newline_notMem_identifier hparamName⟩

section

open Header

theorem laid_field {f : ResolvedField} {name : Bytes} {nodes : List Node}
    (h : field f name = .ok nodes) : ∀ node ∈ nodes, Laid depth node := by
  simp only [field, Result.bind_ok_iff] at h
  obtain ⟨written, hwritten, type, htype, plain, hplain, h⟩ := h
  have hnewline := newline_notMem_stored htype (newline_notMem_ofField hwritten)
  have hplainLaid : Laid depth plain := laid_makeField hplain hnewline (by simp)
  split at h
  · cases h
    simpa using hplainLaid
  · cases h
    simpa using ⟨.comment _, hplainLaid⟩
  · simp only [Result.bind_ok_iff, Result.pure_ok_iff] at h
    obtain ⟨init, hinit, node, hnode, rfl⟩ := h
    refine List.forall_mem_singleton.mpr (laid_makeField hnode hnewline ?_)
    rintro _ ⟨⟩
    exact inline_makeLiteral hinit

theorem laid_returnZero {result : Option FieldType} {node : Node}
    (h : returnZero result = .ok node) : Laid depth node := by
  simp only [returnZero, Result.bind_ok_iff, Result.pure_ok_iff] at h
  obtain ⟨values, hvalues, rfl⟩ := h
  have hreturn : Inline (.identifier (text "return")) := by
    rw [Inline]
    decide
  refine .statement (List.forall_mem_cons.mpr ⟨hreturn, fun value hvalue => ?_⟩)
  obtain ⟨_, _, hmade⟩ := Result.exists_of_mem_mapM hvalues hvalue
  exact inline_makeLiteral hmade

theorem laid_methodBody {options : HeaderOptions} {inInterface : Bool} {m : ResolvedMethod}
    {body : Option (List Node)} (h : methodBody options inInterface m = .ok body) :
    ∀ nodes ∈ body, ∀ node ∈ nodes, Laid depth node := by
  unfold methodBody at h
  split at h
  · rcases Result.ite_ok h with hpure | hbody
    · cases hpure
      rintro _ ⟨⟩
    · simp only [Result.bind_ok_iff, Result.pure_ok_iff] at hbody
      obtain ⟨last, hlast, rfl⟩ := hbody
      rintro _ ⟨⟩
      refine List.forall_mem_append.mpr ⟨fun node hnode => ?_,
        List.forall_mem_singleton.mpr (laid_returnZero hlast)⟩
      split_ifs at hnode
      · obtain ⟨content, rfl⟩ := disassembly_comments _ node hnode
        exact .comment content
      · cases hnode
  · cases h
    rintro _ ⟨⟩

theorem laid_method {options : HeaderOptions} {inInterface : Bool} {m : ResolvedMethod}
    {name : Bytes} {node : Node} (h : method options inInterface m name = .ok node) :
    Laid depth node := by
  simp only [method, Result.bind_ok_iff] at h
  obtain ⟨written, hwritten, result, hresult, types, htypes, body, hbody, h⟩ := h
  refine laid_makeFunction h (newline_notMem_stored hresult (newline_notMem_ofResult hwritten))
    (fun param hparam type htype => ?_) (laid_methodBody hbody)
  obtain ⟨given, hgiven, heq⟩ := List.mem_map.mp (List.of_mem_zip hparam).1
  rw [← heq] at htype
  cases htype
  obtain ⟨arg, _, hof⟩ := Result.exists_of_mem_mapM htypes hgiven
  exact newline_notMem_ofField hof

theorem laid_members {options : HeaderOptions} {c : ResolvedClass} {nodes : List Node}
    (h : members options c = .ok nodes) : ∀ node ∈ nodes, Laid depth node := by
  simp only [members, Result.bind_ok_iff, Result.pure_ok_iff] at h
  obtain ⟨fields, hfields, methods, hmethods, rfl⟩ := h
  refine List.forall_mem_append.mpr ⟨fun node hnode => ?_, fun node hnode => ?_⟩
  · obtain ⟨made, hmade, hnode⟩ := List.mem_flatten.mp hnode
    obtain ⟨_, _, hfield⟩ := Result.exists_of_mem_mapM hfields hmade
    exact laid_field hfield node hnode
  · obtain ⟨_, _, hmethod⟩ := Result.exists_of_mem_mapM hmethods hnode
    exact laid_method (Result.mapError_ok_iff.mp hmethod)

theorem newline_notMem_scopePath {package : Bytes} {path : List Bytes}
    (h : Node.scopePath package = .ok path) : ∀ part ∈ path, Ascii.newline ∉ part := by
  rw [(Node.scopePath_ok h).2]
  exact List.forall_mem_map.mpr fun part _ => newline_notMem_identifier (isIdentifier_mangle part)

theorem laid_definition {options : HeaderOptions} {c : ResolvedClass} {node : Node}
    (h : definition options c = .ok node) : Laid depth node := by
  simp only [definition, Result.bind_ok_iff, Result.pure_ok_iff] at h
  obtain ⟨path, hpath, nodes, hnodes, struct, hstruct, rfl⟩ := h
  rw [Node.makeStruct_ok hstruct]
  refine .scope (newline_notMem_scopePath hpath) (List.forall_mem_append.mpr
    ⟨fun node hnode => ?_, List.forall_mem_singleton.mpr (.struct ?_ ?_ fun node hnode => ?_)⟩)
  · split_ifs at hnode
    · cases hnode
    · rw [List.mem_singleton.mp hnode]
      exact .comment _
  · exact newline_notMem_identifier (isIdentifier_mangle _)
  · exact List.forall_mem_map.mpr fun name _ => newline_notMem_qualifiedName name
  · split_ifs at hnode
    · cases hnode
    · rw [List.mem_singleton.mp hnode]
      exact .access (by decide) (laid_members hnodes)

theorem laid_declarations {names : List Bytes} {nodes : List Node}
    (h : declarations names = .ok nodes) : ∀ node ∈ nodes, Laid depth node := by
  intro node hnode
  obtain ⟨package, _, hscope⟩ := Result.exists_of_mem_mapM h hnode
  simp only [Node.makeScope, Result.bind_ok_iff, Result.pure_ok_iff] at hscope
  obtain ⟨path, hpath, children, hchildren, rfl⟩ := hscope
  refine .scope (newline_notMem_scopePath hpath) fun child hchild => ?_
  rw [Node.adopt_ok hchildren] at hchild
  obtain ⟨declared, hdeclared, hsome⟩ := List.mem_filterMap.mp hchild
  obtain ⟨name, _, rfl⟩ := List.mem_map.mp hdeclared
  cases hsome
  exact .forward (newline_notMem_identifier (isIdentifier_mangle _))

theorem laid_opening : ∀ node ∈ opening, Laid depth node := by
  unfold opening
  simp only [List.forall_mem_cons]
  refine ⟨.includeFile ?_, .includeFile ?_, .verbatim _, List.forall_mem_nil _⟩
  · decide
  · decide

end

theorem laid_header {options : HeaderOptions} {order : List Bytes} {classes : List ResolvedClass}
    {node : Node} (h : header options order classes = .ok node) : Laid depth node := by
  obtain ⟨heading, declarations, definitions, hdeclarations, hdefinitions, rfl⟩ := header_ok h
  refine .file heading (List.forall_mem_append.mpr ⟨List.forall_mem_append.mpr
    ⟨laid_opening, laid_declarations hdeclarations⟩, fun node hnode => ?_⟩)
  obtain ⟨c, _, hc⟩ := Result.exists_of_mem_mapM hdefinitions hnode
  exact laid_definition hc

-- ---------------------------------------------------------------------------
-- Text of a header
-- ---------------------------------------------------------------------------

theorem Laid.printed {node : Node} (h : Laid 0 node) :
    Printed (node.printInto .unlimited) (lines 0 node) ⟨0, []⟩ := by
  have hstart : Printed { sink := { capacity := .unlimited } } [] ⟨0, []⟩ :=
    ⟨⟨rfl, rfl⟩, rfl, rfl, rfl⟩
  exact h.prints.run hstart

/-- A printer writes a header as the lines of its tree, which are computed without a printer. All
of them are whole lines, and in the end the printer is where it started. -/
theorem build_prints_lines {σ : Type} {lookup : Bytes → StateM σ (Result ResolvedClass)}
    {options : HeaderOptions} {order : List Bytes} {world : σ} {node : Node}
    (h : ((build options (some lookup) order).run world).1 = .ok node) :
    let printed := node.printInto .unlimited
    let shown := (lines 0 node).map Line.shown
    printed.sink.text = unlines shown ∧
      Text.splitOn Ascii.newline printed.sink.text = shown ++ [[]] ∧
      printed.depth = 0 ∧ printed.midLine = false ∧ printed.result = .ok () := by
  rw [run_build] at h
  obtain ⟨classes, -, hheader⟩ := Result.bind_ok_iff.mp h
  have hlaid : Laid 0 node := laid_header hheader
  have hprinted := hlaid.printed
  have htext : (node.printInto .unlimited).sink.text = unlines ((lines 0 node).map Line.shown) :=
    hprinted.handed.trans (List.append_nil _)
  refine ⟨htext, ?_, hprinted.depth, hprinted.midLine, Node.result_printInto node⟩
  rw [htext, splitOn_unlines]
  exact List.forall_mem_map.mpr fun line hline =>
    Line.newline_notMem_shown (hlaid.single line hline)

def counting : ResolvedClass :=
  { memberless (text "p/Counter") with
    sourceFile := text "Counter.x"
    fields := [⟨text "LIMIT", .primitive .int, AccessFlags.isStatic ||| AccessFlags.isFinal,
      [.constantValue (.integer 5)]⟩]
    methods := [⟨text "count", ⟨[], some (.primitive .int)⟩, AccessFlags.isStatic,
      [.code ⟨1, 0, [⟨{ opcode := ⟨0xac⟩ }, none⟩], [], []⟩]⟩] }

def countingLines : List Line :=
  [⟨0, []⟩, ⟨0, text "namespace p \x7b"⟩, ⟨0, text "// p/Counter (Counter.x)"⟩,
    ⟨0, text "struct Counter \x7b"⟩, ⟨0, text "public:"⟩,
    ⟨1, text "static constexpr int32_t LIMIT = 5;"⟩, ⟨1, text "static int32_t count() \x7b"⟩,
    ⟨2, text "//    0: ireturn"⟩, ⟨2, text "return 0;"⟩, ⟨1, text "\x7d"⟩, ⟨0, text "\x7d;"⟩,
    ⟨0, text "\x7d // namespace p"⟩]

theorem build_prints_lines_counting :
    let lookup : Bytes → StateM Unit (Result ResolvedClass) := fun _ => pure (.ok counting)
    ∃ node, ((build ⟨[], true⟩ (some lookup) [text "p/Counter"]).run ()).1 = .ok node ∧
      (lines 0 node).drop 18 = countingLines ∧
      let printed := node.printInto .unlimited
      let shown := (lines 0 node).map Line.shown
      printed.sink.text = unlines shown ∧
        Text.splitOn Ascii.newline printed.sink.text = shown ++ [[]] ∧
        printed.depth = 0 ∧ printed.midLine = false ∧ printed.result = .ok () := by
  intro lookup
  have hlines : ((build ⟨[], true⟩ (some lookup) [text "p/Counter"]).run ()).1.map
      (fun node => (lines 0 node).drop 18) = .ok countingLines := by
    decide +kernel
  cases hnode : ((build ⟨[], true⟩ (some lookup) [text "p/Counter"]).run ()).1 with
  | error e =>
    rw [hnode] at hlines
    cases hlines
  | ok node =>
    rw [hnode] at hlines
    exact ⟨node, rfl, Except.ok.inj hlines, build_prints_lines hnode⟩

end ClassHeader.Cpp.Layout
