import ClassHeader.Proofs.Cpp.Comments
import ClassHeader.Proofs.Cpp.Distinct
import ClassHeader.Proofs.Cpp.Members

/-!
# Comments of a header

A header shows its heading, where its classes come from, the values of string constants
and, if asked to, the instructions of its methods. Strings are quoted, and most other
comments end with a letter or a sign of their own; but the heading is shown as it is, and
so is the name at the end of an instruction. These are the comments that can take the line
behind them away.
-/

namespace ClassHeader.Cpp

namespace Header

-- ---------------------------------------------------------------------------
-- What is shown
-- ---------------------------------------------------------------------------

def heading (options : HeaderOptions) : Bytes :=
  if options.comment = [] then defaultComment else options.comment

def fieldComments (f : ResolvedField) : List Bytes :=
  match f.constant?.filter fun _ =>
      f.access.has AccessFlags.isStatic && f.access.has AccessFlags.isFinal with
  | some (.string value) => [f.name ++ text " = " ++ Text.quoted value]
  | _ => []

def methodComments (options : HeaderOptions) (inInterface : Bool) (m : ResolvedMethod) :
    List Bytes :=
  match m.code? with
  | some code =>
    if options.disassemble = true ∧ isPure inInterface m = false then
      code.instructions.map (·.shown) ++ code.handlers.map (·.shown)
    else []
  | none => []

def originComments (c : ResolvedClass) : List Bytes :=
  if c.sourceFile = [] then [] else [c.name ++ text " (" ++ c.sourceFile ++ text ")"]

def classComments (options : HeaderOptions) (c : ResolvedClass) : List Bytes :=
  originComments c ++ (c.fields.flatMap fieldComments ++
    c.methods.flatMap (methodComments options (c.access.has AccessFlags.isInterface)))

/-- All comments of a header, in the order of its text. -/
def headerComments (options : HeaderOptions) (classes : List ResolvedClass) : List Bytes :=
  heading options :: classes.flatMap (classComments options)

-- ---------------------------------------------------------------------------
-- Trees of a header
-- ---------------------------------------------------------------------------

/-- The trees stand on lines of their own, and their comments have these contents. -/
structure Shows (nodes : List Node) (contents : List Bytes) : Prop where
  onLines : ∀ node ∈ nodes, node.OnLines
  comments : nodes.flatMap Node.comments = contents

theorem shows_nil : Shows [] [] := ⟨List.forall_mem_nil _, rfl⟩

theorem Shows.append {nodes others : List Node} {contents more : List Bytes}
    (h : Shows nodes contents) (h' : Shows others more) :
    Shows (nodes ++ others) (contents ++ more) where
  onLines := List.forall_mem_append.mpr ⟨h.onLines, h'.onLines⟩
  comments := by rw [List.flatMap_append, h.comments, h'.comments]

theorem shows_of_mapM {α β : Type} {f : α → Result β} {as : List α} {bs : List β}
    {view : β → List Node} {expected : α → List Bytes} (h : as.mapM f = .ok bs)
    (hview : ∀ a b, f a = .ok b → Shows (view b) (expected a)) :
    Shows (bs.flatMap view) (as.flatMap expected) := by
  induction Result.mapM_ok_iff.mp h with
  | nil => exact shows_nil
  | cons hfirst hrest ih =>
    rw [List.flatMap_cons, List.flatMap_cons]
    exact (hview _ _ hfirst).append (ih (Result.mapM_ok_iff.mpr hrest))

theorem shows_comments (contents : List Bytes) : Shows (contents.map .comment) contents where
  onLines := by simp [Node.OnLines]
  comments := by simp [List.flatMap_map, Node.comments]

theorem comments_makeLiteral {value : Value} {node : Node} (h : Node.makeLiteral value = .ok node) :
    node.comments = [] := by
  simp only [Node.makeLiteral, Result.bind_ok_iff, Result.pure_ok_iff] at h
  obtain ⟨_, _, rfl⟩ := h
  simp only [Node.comments]

theorem field_shows {f : ResolvedField} {name : Bytes} {nodes : List Node}
    (h : field f name = .ok nodes) : Shows nodes (fieldComments f) := by
  simp only [field, Result.bind_ok_iff] at h
  obtain ⟨_, _, type, _, plain, hplain, h⟩ := h
  have hplainShows : Shows [plain] [] := by
    rw [Node.makeField_ok hplain]
    exact ⟨by simp [Node.OnLines], by simp [Node.comments]⟩
  have hinit : ∀ {value : Literal}, (do
      let init ← Node.makeLiteral (constantOf f.type value)
      return [← Node.makeField (some type) name (some init) true]) = Except.ok nodes →
      Shows nodes [] := by
    intro value hmade
    simp only [Result.bind_ok_iff, Result.pure_ok_iff] at hmade
    obtain ⟨init, hliteral, node, hnode, rfl⟩ := hmade
    have hnone := comments_makeLiteral hliteral
    rw [Node.makeField_ok hnode]
    exact ⟨by simp [Node.OnLines, hnone], by simp [Node.comments, hnone]⟩
  unfold fieldComments
  generalize f.constant?.filter _ = constant at h ⊢
  cases constant with
  | none =>
    cases h
    exact hplainShows
  | some value =>
    cases value with
    | string value =>
      cases h
      exact (shows_comments [_]).append hplainShows
    | integer _ | float _ | long _ | double _ => exact hinit h

theorem returnZero_shows {result : Option FieldType} {node : Node}
    (h : returnZero result = .ok node) : Shows [node] [] := by
  simp only [returnZero, Result.bind_ok_iff, Result.pure_ok_iff] at h
  obtain ⟨values, hvalues, rfl⟩ := h
  have hparts : Node.commentsOf (.identifier (text "return") :: values) = [] := by
    simp only [Node.commentsOf, Node.commentsOf_eq_flatMap, Node.comments, List.nil_append,
      List.flatMap_eq_nil_iff]
    intro value hvalue
    obtain ⟨_, _, hmade⟩ := Result.exists_of_mem_mapM hvalues hvalue
    exact comments_makeLiteral hmade
  exact ⟨by simpa [Node.OnLines] using hparts, by simpa [Node.comments] using hparts⟩

theorem shown_shows (options : HeaderOptions) (code : ResolvedCode) :
    Shows (if options.disassemble then disassembly code else [])
      (if options.disassemble = true then
        code.instructions.map (·.shown) ++ code.handlers.map (·.shown) else []) := by
  have hcomments : disassembly code =
      (code.instructions.map (·.shown) ++ code.handlers.map (·.shown)).map .comment := by
    simp [disassembly, Function.comp_def]
  split_ifs
  · rw [hcomments]
    exact shows_comments _
  · exact shows_nil

theorem method_shows {options : HeaderOptions} {inInterface : Bool} {m : ResolvedMethod}
    {name : Bytes} {node : Node} (h : method options inInterface m name = .ok node) :
    Shows [node] (methodComments options inInterface m) := by
  simp only [method, Result.bind_ok_iff] at h
  obtain ⟨_, _, result, _, types, _, body, hbody, h⟩ := h
  obtain ⟨params, -, rfl⟩ := Node.makeFunction_ok h
  have hplain : ∀ isPure, Shows [Node.function result name params (isVirtual m) isPure none] [] :=
    fun _ => ⟨by simp [Node.OnLines], by simp [Node.comments]⟩
  unfold methodBody at hbody
  unfold methodComments
  cases hcode : m.code? with
  | none =>
    rw [hcode] at hbody
    cases hbody
    exact hplain _
  | some code =>
    rw [hcode] at hbody
    cases hpure : isPure inInterface m with
    | true =>
      simp only [hpure, if_true, Result.pure_ok_iff] at hbody
      simp only [← hbody, Bool.true_eq_false, and_false, if_false]
      exact hplain _
    | false =>
      simp only [hpure, Bool.false_eq_true, if_false, Result.bind_ok_iff,
        Result.pure_ok_iff] at hbody
      obtain ⟨last, hlast, rfl⟩ := hbody
      have hbody := (shown_shows options code).append (returnZero_shows hlast)
      rw [List.append_nil] at hbody
      simp only [and_true]
      exact ⟨by simpa [Node.OnLines, Node.allOnLines_iff] using hbody.onLines,
        by simpa [Node.comments, Node.commentsOf_eq_flatMap] using hbody.comments⟩

theorem flatMap_zip {α : Type} {as : List α} {names : List Bytes} (expected : α → List Bytes)
    (hlength : as.length ≤ names.length) :
    (as.zip names).flatMap (fun a => expected a.1) = as.flatMap expected := by
  rw [← List.flatMap_map Prod.fst expected, List.map_fst_zip hlength]

theorem members_shows {options : HeaderOptions} {c : ResolvedClass} {nodes : List Node}
    (h : members options c = .ok nodes) :
    Shows nodes (c.fields.flatMap fieldComments ++
      c.methods.flatMap (methodComments options (c.access.has AccessFlags.isInterface))) := by
  simp only [members, Result.bind_ok_iff, Result.pure_ok_iff] at h
  obtain ⟨fields, hfields, methods, hmethods, rfl⟩ := h
  have hfieldsShow : Shows (fields.flatMap id) _ :=
    shows_of_mapM hfields fun _ _ hfield => field_shows hfield
  have hmethodsShow : Shows (methods.flatMap ([·])) _ :=
    shows_of_mapM hmethods fun _ _ hmethod => method_shows (Result.mapError_ok_iff.mp hmethod)
  have hfieldNames : c.fields.length ≤ (fieldNames c).length := (length_fieldNamesFrom _ _).ge
  have hmethodNames : c.methods.length ≤ (methodNames c).length := (length_methodNamesFrom _ _).ge
  rw [flatMap_zip fieldComments hfieldNames] at hfieldsShow
  rw [flatMap_zip (methodComments options _) hmethodNames] at hmethodsShow
  simpa using hfieldsShow.append hmethodsShow

theorem definition_shows {options : HeaderOptions} {c : ResolvedClass} {node : Node}
    (h : definition options c = .ok node) : Shows [node] (classComments options c) := by
  simp only [definition, Result.bind_ok_iff, Result.pure_ok_iff] at h
  obtain ⟨path, _, nodes, hnodes, struct, hstruct, rfl⟩ := h
  have hmembers := members_shows hnodes
  have horigin : Shows (if c.sourceFile = [] then []
      else [.comment (c.name ++ text " (" ++ c.sourceFile ++ text ")")]) (originComments c) := by
    unfold originComments
    split_ifs
    · exact shows_nil
    · exact shows_comments [_]
  have hpublic : Shows
      ((if nodes.isEmpty then [] else [some (Node.access (text "public") nodes)]).filterMap id)
      (nodes.flatMap Node.comments) := by
    split_ifs with hempty
    · rw [List.isEmpty_iff.mp hempty]
      exact shows_nil
    · exact ⟨by simpa [Node.OnLines, Node.allOnLines_iff] using hmembers.onLines,
        by simp [Node.comments, Node.commentsOf_eq_flatMap]⟩
  have hstructShows : Shows [struct] (nodes.flatMap Node.comments) := by
    rw [Node.makeStruct_ok hstruct]
    exact ⟨by simpa [Node.OnLines, Node.allOnLines_iff] using hpublic.onLines,
      by simpa [Node.comments, Node.commentsOf_eq_flatMap] using hpublic.comments⟩
  rw [hmembers.comments] at hstructShows
  have hall : Shows _ (classComments options c) := horigin.append hstructShows
  exact ⟨by simpa [Node.OnLines, Node.allOnLines_iff] using hall.onLines,
    by simpa [Node.comments, Node.commentsOf_eq_flatMap] using hall.comments⟩

theorem declarations_shows {names : List Bytes} {nodes : List Node}
    (h : declarations names = .ok nodes) : Shows nodes [] := by
  have hscopes : ∀ node ∈ nodes, node.OnLines ∧ node.comments = [] := by
    intro node hnode
    obtain ⟨package, _, hscope⟩ := Result.exists_of_mem_mapM h hnode
    simp only [Node.makeScope, Result.bind_ok_iff, Result.pure_ok_iff] at hscope
    obtain ⟨path, _, children, hchildren, rfl⟩ := hscope
    have hforwards : ∀ child ∈ children, child.OnLines ∧ child.comments = [] := by
      intro child hchild
      rw [Node.adopt_ok hchildren] at hchild
      obtain ⟨declared, hdeclared, hsome⟩ := List.mem_filterMap.mp hchild
      obtain ⟨name, _, rfl⟩ := List.mem_map.mp hdeclared
      cases hsome
      simp [Node.OnLines, Node.comments]
    simp only [Node.OnLines, Node.allOnLines_iff, Node.comments, Node.commentsOf_eq_flatMap,
      List.flatMap_eq_nil_iff]
    exact forall₂_and.mp hforwards
  rw [forall₂_and] at hscopes
  exact ⟨hscopes.1, List.flatMap_eq_nil_iff.mpr hscopes.2⟩

theorem opening_shows : Shows opening [] :=
  ⟨by simp [opening, Node.OnLines], by simp [opening, Node.comments]⟩

end Header

theorem header_shows {options : HeaderOptions} {order : List Bytes}
    {classes : List ResolvedClass} {node : Node} (h : header options order classes = .ok node) :
    Header.Shows [node] (Header.headerComments options classes) := by
  simp only [header, Result.bind_ok_iff, Result.pure_ok_iff] at h
  obtain ⟨declarations, hdeclarations, definitions, hdefinitions, rfl⟩ := h
  have hdefined : Header.Shows (definitions.flatMap ([·])) _ :=
    Header.shows_of_mapM hdefinitions fun _ _ hdefinition =>
      Header.definition_shows (Result.mapError_ok_iff.mp hdefinition)
  have hfront := Header.opening_shows.append (Header.declarations_shows hdeclarations)
  have hall := hfront.append hdefined
  have hheading : Header.heading options ≠ [] := by
    unfold Header.heading
    split_ifs with hempty
    · decide
    · exact hempty
  rw [List.flatMap_singleton'] at hall
  refine ⟨by simpa [Node.OnLines, Node.allOnLines_iff] using hall.onLines, ?_⟩
  simp only [List.flatMap_singleton, Node.comments, Node.commentsOf_eq_flatMap, hall.comments]
  exact congrArg (· ++ classes.flatMap (Header.classComments options)) (if_neg hheading)

-- ---------------------------------------------------------------------------
-- Comments that end with a backslash
-- ---------------------------------------------------------------------------

theorem backslash_notMem_ofNat (n : Nat) : Ascii.backslash ∉ Text.ofNat n := by
  intro h
  have hdigit := Netstring.isDigit_of_mem_ofNat h
  cases hdigit

theorem backslash_notMem_ofInt (n : Int) : Ascii.backslash ∉ Text.ofInt n := by
  cases n with
  | ofNat n => exact backslash_notMem_ofNat n
  | negSucc n =>
    exact List.not_mem_cons_of_ne_of_not_mem (by decide) (backslash_notMem_ofNat (n + 1))

theorem backslash_notMem_name (op : Bytecode.Opcode) : Ascii.backslash ∉ op.name := by
  have htable : ∀ entry ∈ Bytecode.Opcode.table, Ascii.backslash ∉ entry.2 := by decide +kernel
  unfold Bytecode.Opcode.name
  split
  · next name hname =>
    obtain ⟨before, behind, heq, -⟩ := List.lookup_eq_some_iff.mp hname
    exact htable (op, name) (by simp [heq])
  · have hhex : Ascii.backslash ∉ Text.hex 2 op.code.toNat := by
      intro h
      have hdigit := Text.isHexDigit_of_mem_hex h
      cases hdigit
    simp +decide [hhex]

theorem backslash_notMem_elementTypeName (code : UInt8) :
    Ascii.backslash ∉ Bytecode.elementTypeName code := by
  have hnames : ∀ name ∈ Bytecode.elementTypes, Ascii.backslash ∉ text name := by decide +kernel
  have hnumber : Ascii.backslash ∉ text "ArrayType(" ++ Text.ofNat code.toNat ++ text ")" := by
    simp +decide [backslash_notMem_ofNat]
  unfold Bytecode.elementTypeName
  split_ifs
  · split
    · next name hname => exact hnames name (List.mem_of_getElem? hname)
    · exact hnumber
  · exact hnumber

theorem backslash_notMem_line (i : Bytecode.Instruction) : Ascii.backslash ∉ i.line := by
  have hoperand : Ascii.backslash ∉ i.operandText := by
    unfold Bytecode.Instruction.operandText
    split <;>
      simp +decide [backslash_notMem_ofNat, backslash_notMem_ofInt, backslash_notMem_name,
        backslash_notMem_elementTypeName]
  simp [Bytecode.Instruction.line, backslash_notMem_name, hoperand]

/-- Only a name that an instruction refers to brings a backslash to its end. -/
theorem exists_ref_of_shown {i : ResolvedInstruction}
    (h : i.shown.getLast? = some Ascii.backslash) :
    ∃ ref, i.ref = some ref ∧ ref.shown.getLast? = some Ascii.backslash := by
  have hblank : ∀ front back : Bytes, (front ++ text " " ++ back).getLast? = some Ascii.backslash →
      back.getLast? = some Ascii.backslash := by
    intro front back hlast
    rw [List.append_assoc] at hlast
    exact (getLast?_append_cons _ (by decide)).mp hlast
  rw [ResolvedInstruction.shown, ResolvedInstruction.painted,
    show text ": " = text ":" ++ text " " by decide, ← List.append_assoc] at h
  have hoperand := hblank _ _ h
  cases href : i.ref with
  | none =>
    rw [href] at hoperand
    exact absurd (List.mem_of_getLast? hoperand) (backslash_notMem_line i.instruction)
  | some ref =>
    rw [href] at hoperand
    exact ⟨ref, rfl, hblank _ _ hoperand⟩

namespace Header

theorem getLast?_handler (handler : ResolvedHandler) :
    handler.shown.getLast? ≠ some Ascii.backslash := by
  intro h
  have hdigit := isDigit_getLast?_ofNat (text "try [" ++ Text.ofNat handler.startPc.toNat ++
    text ", " ++ Text.ofNat handler.stopPc.toNat ++ text ") catch " ++
    (if handler.catchType = [] then text "any" else handler.catchType) ++ text " -> ")
    handler.handlerPc.toNat
  rw [ResolvedHandler.shown] at h
  rw [h] at hdigit
  cases hdigit

theorem getLast?_origin {c : ResolvedClass} {content : Bytes} (h : content ∈ originComments c) :
    content.getLast? ≠ some Ascii.backslash := by
  unfold originComments at h
  split_ifs at h
  · cases h
  · rw [List.mem_singleton.mp h, List.getLast?_append_of_ne_nil _ (by decide)]
    decide

theorem getLast?_fieldComment {f : ResolvedField} {content : Bytes}
    (h : content ∈ fieldComments f) : content.getLast? ≠ some Ascii.backslash := by
  unfold fieldComments at h
  split at h
  · rw [List.mem_singleton.mp h, Text.quoted, ← List.append_assoc,
      List.getLast?_append_of_ne_nil _ (by decide)]
    decide
  · cases h

/-- A comment that ends with a backslash is the heading, or shows an instruction that refers to
something whose name ends with it. -/
theorem ends_of_mem_headerComments {options : HeaderOptions} {classes : List ResolvedClass}
    {content : Bytes} (hmem : content ∈ headerComments options classes)
    (hlast : content.getLast? = some Ascii.backslash) :
    content = heading options ∨ options.disassemble = true ∧
      ∃ c ∈ classes, ∃ m ∈ c.methods, ∃ code, m.code? = some code ∧
        ∃ i ∈ code.instructions, ∃ ref, i.ref = some ref ∧ content = i.shown ∧
          ref.shown.getLast? = some Ascii.backslash := by
  rcases List.mem_cons.mp hmem with hheading | hclass
  · exact .inl hheading
  obtain ⟨c, hc, hcontent⟩ := List.mem_flatMap.mp hclass
  rcases List.mem_append.mp hcontent with horigin | hmember
  · exact absurd hlast (getLast?_origin horigin)
  rcases List.mem_append.mp hmember with hfield | hmethod
  · obtain ⟨f, -, hf⟩ := List.mem_flatMap.mp hfield
    exact absurd hlast (getLast?_fieldComment hf)
  obtain ⟨m, hm, hshown⟩ := List.mem_flatMap.mp hmethod
  unfold methodComments at hshown
  split at hshown
  · next code hcode =>
    split_ifs at hshown with hoption
    · rcases List.mem_append.mp hshown with hinstruction | hhandler
      · obtain ⟨i, hi, rfl⟩ := List.mem_map.mp hinstruction
        obtain ⟨ref, href, hname⟩ := exists_ref_of_shown hlast
        exact .inr ⟨hoption.1, c, hc, m, hm, code, hcode, i, hi, ref, href, rfl, hname⟩
      · obtain ⟨handler, -, rfl⟩ := List.mem_map.mp hhandler
        exact absurd hlast (getLast?_handler handler)
    · cases hshown
  · cases hshown

end Header

open Header

/-- The text of a header is cut into whole lines of code and of comments, and joining lines keeps
to these pieces. Each line of a comment starts with its slashes. It is joined to the next line
exactly if its content ends with a backslash, and the line behind the comment is joined to it
exactly if the whole content does. Among the comments of a header the heading may end so, and an
instruction may that refers to something whose name does. -/
theorem header_comments_joined_iff {options : HeaderOptions} {order : List Bytes}
    {classes : List ResolvedClass} {node : Node} (h : header options order classes = .ok node) :
    (∃ pieces : List Piece, node.text = pieces.flatMap Piece.text ∧
      pieces.filterMap Piece.content? = headerComments options classes ∧
      (∀ piece ∈ pieces, piece.Whole) ∧
      splice node.text = pieces.flatMap fun piece => splice piece.text) ∧
    (∀ depth content,
      (Node.comment content).text = (Piece.comment 0 content).text ∧
      (∀ line ∈ commentLines depth content,
        Ascii.newline ∉ line ∧ isCommentLine line = true) ∧
      (splice (Piece.comment depth content).text = (Piece.comment depth content).text ↔
        ∀ s ∈ Text.splitOn Ascii.newline content, s.getLast? ≠ some Ascii.backslash) ∧
      ((splice (Piece.comment depth content).text).getLast? = some Ascii.newline ↔
        content.getLast? ≠ some Ascii.backslash)) ∧
    ∀ content ∈ headerComments options classes, content.getLast? = some Ascii.backslash →
      content = heading options ∨ options.disassemble = true ∧
        ∃ c ∈ classes, ∃ m ∈ c.methods, ∃ code, m.code? = some code ∧
          ∃ i ∈ code.instructions, ∃ ref, i.ref = some ref ∧ content = i.shown ∧
            ref.shown.getLast? = some Ascii.backslash := by
  have hshows := header_shows h
  have honLines := hshows.onLines node List.mem_cons_self
  have hcontents : node.comments = headerComments options classes := by
    simpa using hshows.comments
  obtain ⟨pieces, htext, hpieces, hwhole⟩ := Node.text_pieced honLines
  refine ⟨⟨pieces, htext, hpieces.trans hcontents, hwhole, ?_⟩, fun depth content => ?_,
    fun content hmem hlast => ends_of_mem_headerComments hmem hlast⟩
  · rw [htext, Piece.splice_flatMap_text hwhole]
  · exact ⟨Node.text_comment content,
      fun line hline => ⟨newline_notMem_commentLines line hline,
        isCommentLine_commentLines line hline⟩,
      splice_comment_eq_iff, getLast?_splice_comment⟩

def making (className sourceFile : Bytes) : ResolvedClass :=
  { memberless (text "A") with
    sourceFile
    methods := [{
      name := text "f"
      type := ⟨[], none⟩
      access := AccessFlags.isStatic
      attributes := [.code {
        maxStack := 1
        maxLocals := 0
        instructions := [⟨{ opcode := ⟨0xb1⟩ }, none⟩,
          ⟨{ opcode := ⟨0xbb⟩, offset := 1, operand := .pool 2 },
            some (.type className (.object className))⟩]
        handlers := []
        attributes := [] }] }] }

theorem header_comments_joined_iff_making :
    ∃ node, header ⟨[], true⟩ [] [making (text "B") (text "A\\")] = .ok node ∧
      headerComments ⟨[], true⟩ [making (text "B") (text "A\\")] =
        [text "Generated by jaot. Do not edit.", text "A (A\\)", text "   0: return",
          text "   1: new B"] ∧
      (∃ pieces : List Piece, node.text = pieces.flatMap Piece.text ∧
        pieces.filterMap Piece.content? =
          headerComments ⟨[], true⟩ [making (text "B") (text "A\\")] ∧
        (∀ piece ∈ pieces, piece.Whole) ∧
        splice node.text = pieces.flatMap fun piece => splice piece.text) ∧
      splice node.text = node.text := by
  have hspliced : (header ⟨[], true⟩ [] [making (text "B") (text "A\\")]).map
      (fun node => decide (splice node.text = node.text)) = .ok true := by
    decide +kernel
  cases hnode : header ⟨[], true⟩ [] [making (text "B") (text "A\\")] with
  | error e =>
    rw [hnode] at hspliced
    cases hspliced
  | ok node =>
    rw [hnode] at hspliced
    exact ⟨node, rfl, by decide +kernel, (header_comments_joined_iff hnode).1,
      of_decide_eq_true (Except.ok.inj hspliced)⟩

/-- Behind a comment that shows a class name with a backslash at its end, the statement that ends
the method is a part of the comment. -/
theorem header_joins_return_to_comment :
    ∃ node, header ⟨[], true⟩ [] [making (text "B\\") []] = .ok node ∧
      text "        //    1: new B\\" ∈ Text.splitOn Ascii.newline node.text ∧
      text "        return;" ∈ Text.splitOn Ascii.newline node.text ∧
      text "        return;" ∉ Text.splitOn Ascii.newline (splice node.text) ∧
      text "        //    1: new B        return;" ∈
        Text.splitOn Ascii.newline (splice node.text) := by
  have hlines : (header ⟨[], true⟩ [] [making (text "B\\") []]).map (fun node => decide (
      text "        //    1: new B\\" ∈ Text.splitOn Ascii.newline node.text ∧
      text "        return;" ∈ Text.splitOn Ascii.newline node.text ∧
      text "        return;" ∉ Text.splitOn Ascii.newline (splice node.text) ∧
      text "        //    1: new B        return;" ∈
        Text.splitOn Ascii.newline (splice node.text))) = .ok true := by
    decide +kernel
  cases hnode : header ⟨[], true⟩ [] [making (text "B\\") []] with
  | error e =>
    rw [hnode] at hlines
    cases hlines
  | ok node =>
    rw [hnode] at hlines
    exact ⟨node, rfl, of_decide_eq_true (Except.ok.inj hlines)⟩

end ClassHeader.Cpp
