import ClassHeader.Proofs.Cpp.Comments

/-!
# Lines of a tree

The lines of a tree are computed from the tree and a depth alone: the bodies of structs
and functions are one level deeper, the contents of namespaces are not, and an access
label stands at the level of its struct. A printer keeps the depth, and whether its line
has begun, as a state. From the start of a line on it prints exactly the lines of a tree,
and then it is at the start of a line of the same depth again: each of its steps keeps
account of the lines that it has printed and of what the current one holds.
-/

namespace ClassHeader.Cpp.Layout

-- ---------------------------------------------------------------------------
-- Lines of a tree
-- ---------------------------------------------------------------------------

/-- A line without its end. -/
structure Line where
  depth : Nat
  content : Bytes
  deriving DecidableEq, Repr

/-- Four blanks for each level, but none on empty lines. -/
def Line.shown (line : Line) : Bytes :=
  if line.content = [] then [] else List.replicate (4 * line.depth) Ascii.blank ++ line.content

def inlineText : Node → Bytes
  | .identifier name => name
  | .literal written => written
  | .typeName type => type.written
  | _ => []

def basesText (bases : List Bytes) : Bytes :=
  if bases = [] then []
  else text " : " ++ (text ", ").intercalate (bases.map (text "public " ++ ·))

def includeText (path : Bytes) (system : Bool) : Bytes :=
  text "#include " ++ if system then text "<" ++ path ++ text ">" else Text.quoted path

/-- Static constants show their storage before `constexpr`, which is no part of the type then. -/
def fieldText (type : TypeRef) (name : Bytes) (constexpr : Bool) : Bytes :=
  let isStatic := type.flags.has TypeFlags.static
  (if constexpr ∧ isStatic then
      text "static constexpr " ++ { type with flags := type.flags ^^^ TypeFlags.static }.written
    else if constexpr then text "constexpr " ++ type.written
    else type.written) ++ text " " ++ name

def signatureText (result : TypeRef) (name : Bytes) (params : List Param) (isVirtual : Bool) :
    Bytes :=
  (if isVirtual then text "virtual " else []) ++ result.written ++ text " " ++ name ++ text "(" ++
    (text ", ").intercalate (params.map Node.Param.written) ++ text ")"

def textLines (depth : Nat) (lineOf : Bytes → Bytes) (content : Bytes) : List Line :=
  (Text.splitOn Ascii.newline content).map fun s => ⟨depth, lineOf s⟩

mutual

def lines (depth : Nat) : Node → List Line
  | .file heading children =>
    (if heading = [] then [] else textLines depth commentLine heading) ++
      ⟨depth, text "#pragma once"⟩ :: linesOf [⟨depth, []⟩] depth children
  | .scope path children =>
    if path = [] then linesOf [] depth children
    else
      ⟨depth, text "namespace " ++ Node.scopeName path ++ text " \x7b"⟩ ::
        linesOf [] depth children ++ [⟨depth, text "\x7d // namespace " ++ Node.scopeName path⟩]
  | .struct name bases children =>
    ⟨depth, text "struct " ++ name ++ basesText bases ++ text " \x7b"⟩ ::
      linesOf [] (depth + 1) children ++ [⟨depth, text "\x7d;"⟩]
  | .access label children => ⟨depth - 1, label ++ text ":"⟩ :: linesOf [] depth children
  | .block children => linesOf [] (depth + 1) children
  | .group children => linesOf [] depth children
  | .statement parts => [⟨depth, (text " ").intercalate (parts.map inlineText) ++ text ";"⟩]
  | .includeFile path system => [⟨depth, includeText path system⟩]
  | .forward name => [⟨depth, text "struct " ++ name ++ text ";"⟩]
  | .comment content => textLines depth commentLine content
  | .verbatim content => textLines depth id (Text.dropTail [Ascii.newline] content)
  | .identifier _ | .literal _ | .typeName _ => []
  | .field type name none constexpr => [⟨depth, fieldText type name constexpr ++ text ";"⟩]
  | .field type name (some init) constexpr =>
    [⟨depth, fieldText type name constexpr ++ text " = " ++ inlineText init ++ text ";"⟩]
  | .function result name params isVirtual isPure none =>
    [⟨depth, signatureText result name params (isVirtual || isPure) ++
      text (if isPure then " = 0;" else ";")⟩]
  | .function result name params isVirtual isPure (some body) =>
    let signature := signatureText result name params (isVirtual || isPure)
    if isPure then [⟨depth, signature ++ text " = 0;"⟩]
    else ⟨depth, signature ++ text " \x7b"⟩ :: linesOf [] (depth + 1) body ++ [⟨depth, text "\x7d"⟩]

def linesOf (before : List Line) (depth : Nat) : List Node → List Line
  | [] => []
  | node :: rest => before ++ lines depth node ++ linesOf before depth rest

end

-- ---------------------------------------------------------------------------
-- Trees on whole lines
-- ---------------------------------------------------------------------------

def Inline : Node → Prop
  | .identifier name => Ascii.newline ∉ name
  | .literal written => Ascii.newline ∉ written
  | .typeName type => Ascii.newline ∉ type.name
  | _ => False

/-- Trees that stand on lines of their own: labels are inside of something, statements and
initialisers hold only what is written within a line, and names hold no line end. -/
inductive Laid : Nat → Node → Prop
  | file {depth : Nat} (heading : Bytes) {children : List Node}
    (hchildren : ∀ child ∈ children, Laid depth child) : Laid depth (.file heading children)
  | scope {depth : Nat} {path : List Bytes} {children : List Node}
    (hpath : ∀ part ∈ path, Ascii.newline ∉ part)
    (hchildren : ∀ child ∈ children, Laid depth child) : Laid depth (.scope path children)
  | struct {depth : Nat} {name : Bytes} {bases : List Bytes} {children : List Node}
    (hname : Ascii.newline ∉ name) (hbases : ∀ base ∈ bases, Ascii.newline ∉ base)
    (hchildren : ∀ child ∈ children, Laid (depth + 1) child) :
    Laid depth (.struct name bases children)
  | access {depth : Nat} {label : Bytes} {children : List Node} (hlabel : Ascii.newline ∉ label)
    (hchildren : ∀ child ∈ children, Laid (depth + 1) child) :
    Laid (depth + 1) (.access label children)
  | block {depth : Nat} {children : List Node}
    (hchildren : ∀ child ∈ children, Laid (depth + 1) child) : Laid depth (.block children)
  | group {depth : Nat} {children : List Node}
    (hchildren : ∀ child ∈ children, Laid depth child) : Laid depth (.group children)
  | statement {depth : Nat} {parts : List Node} (hparts : ∀ part ∈ parts, Inline part) :
    Laid depth (.statement parts)
  | includeFile {depth : Nat} {path : Bytes} {system : Bool}
    (hpath : Ascii.newline ∉ includeText path system) : Laid depth (.includeFile path system)
  | forward {depth : Nat} {name : Bytes} (hname : Ascii.newline ∉ name) :
    Laid depth (.forward name)
  | comment {depth : Nat} (content : Bytes) : Laid depth (.comment content)
  | verbatim {depth : Nat} (content : Bytes) : Laid depth (.verbatim content)
  | field {depth : Nat} {type : TypeRef} {name : Bytes} {init : Option Node} {constexpr : Bool}
    (htype : Ascii.newline ∉ type.name) (hname : Ascii.newline ∉ name)
    (hinit : ∀ value ∈ init, Inline value) : Laid depth (.field type name init constexpr)
  | function {depth : Nat} {result : TypeRef} {name : Bytes} {params : List Param}
    {isVirtual isPure : Bool} {body : Option (List Node)} (hresult : Ascii.newline ∉ result.name)
    (hname : Ascii.newline ∉ name)
    (hparams : ∀ param ∈ params, Ascii.newline ∉ param.type.name ∧ Ascii.newline ∉ param.name)
    (hbody : ∀ nodes ∈ body, ∀ node ∈ nodes, Laid (depth + 1) node) :
    Laid depth (.function result name params isVirtual isPure body)

-- ---------------------------------------------------------------------------
-- Printers and their lines
-- ---------------------------------------------------------------------------

open Printer

/-- The printer has printed these lines, and it stands on the current line behind what that line
holds so far. -/
structure Printed (p : Printer) (before : List Line) (current : Line) : Prop where
  isOpen : p.Open
  depth : p.depth = current.depth
  midLine : p.midLine = decide (current.content ≠ [])
  handed : p.sink.text = unlines (before.map Line.shown) ++ current.shown

section

variable {p : Printer} {before : List Line} {depth : Nat} {content : Bytes}

/-- Only the first text of a line brings the indentation with it. -/
theorem Printed.text_indented (h : Printed p before ⟨depth, content⟩) :
    p.indented.text = unlines (before.map Line.shown) ++
      (List.replicate (4 * depth) Ascii.blank ++ content) := by
  by_cases hcontent : content = []
  · subst hcontent
    have hmid : p.midLine = false := h.midLine
    have hhanded : p.sink.text = unlines (before.map Line.shown) := by
      rw [h.handed, Line.shown, if_pos rfl, List.append_nil]
    rw [indented, hmid, if_neg (by decide), h.depth, List.append_nil, ← hhanded]
    split_ifs with hdepth
    · simp [Sink.text, Sink.take, indentation]
    · obtain rfl : depth = 0 := Nat.eq_zero_of_not_pos hdepth
      exact (List.append_nil _).symm
  · have hmid : p.midLine = true := by rw [h.midLine, decide_eq_true hcontent]
    rw [indented, if_pos hmid, h.handed, Line.shown, if_neg hcontent]

theorem Printed.write (h : Printed p before ⟨depth, content⟩) (s : Bytes) :
    Printed (p.write s) before ⟨depth, content ++ s⟩ := by
  by_cases hs : s = []
  · rw [hs, List.append_nil]
    have hsame : p.write [] = p := by simp [Printer.write]
    rwa [hsame]
  · have hne : content ++ s ≠ [] := by simp [hs]
    refine ⟨(write_steady s).isOpen h.isOpen, ?_, ?_, ?_⟩
    · rw [(write_steady s).depth h.isOpen (Nat.zero_le _), h.depth]
    · rw [h.isOpen.write hs, decide_eq_true hne]
    · have htake : (p.indented.take s).text = p.indented.text ++ s := by
        simp [Sink.text, Sink.take]
      rw [h.isOpen.write hs, htake, h.text_indented, Line.shown, if_neg hne]
      simp only [List.append_assoc]

theorem Printed.newline {current : Line} (h : Printed p before current) :
    Printed p.newline (before ++ [current]) ⟨current.depth, []⟩ where
  isOpen := newline_steady.isOpen h.isOpen
  depth := by rw [newline_steady.depth h.isOpen (Nat.zero_le _), h.depth]
  midLine := rfl
  handed := by
    rw [h.isOpen.text_newline, h.handed, List.map_append, unlines_append, List.map_singleton,
      unlines_singleton, List.append_assoc]
    exact (List.append_nil _).symm

theorem Printed.line (h : Printed p before ⟨depth, content⟩) (s : Bytes) :
    Printed (p.line s) (before ++ [⟨depth, content ++ s⟩]) ⟨depth, []⟩ :=
  (h.write s).newline

theorem Printed.indent (h : Printed p before ⟨depth, []⟩) :
    Printed p.indent before ⟨depth + 1, []⟩ :=
  ⟨h.isOpen, congrArg (· + 1) h.depth, h.midLine, h.handed⟩

theorem Printed.dedent (h : Printed p before ⟨depth + 1, []⟩) :
    Printed p.dedent before ⟨depth, []⟩ :=
  ⟨h.isOpen, congrArg (· - 1) h.depth, h.midLine, h.handed⟩

theorem Printed.foldl_line {α : Type} (lineOf : α → Bytes) (as : List α)
    (h : Printed p before ⟨depth, []⟩) :
    Printed (as.foldl (fun p a => p.line (lineOf a)) p)
      (before ++ as.map fun a => ⟨depth, lineOf a⟩) ⟨depth, []⟩ := by
  induction as generalizing p before with
  | nil => simpa using h
  | cons a as ih => simpa using ih (h.line (lineOf a))

theorem Printed.foldl_writeAll {α : Type} (sep : Bytes) (textOf : α → Bytes) (as : List α)
    (h : Printed p before ⟨depth, content⟩) :
    Printed (as.foldl (fun p a => p.writeAll [sep, textOf a]) p) before
      ⟨depth, content ++ as.flatMap fun a => sep ++ textOf a⟩ := by
  induction as generalizing p content with
  | nil => simpa using h
  | cons a as ih =>
    have hall := ih ((h.write sep).write (textOf a))
    rw [List.flatMap_cons, ← List.append_assoc, ← List.append_assoc]
    exact hall

theorem intercalate_map_cons {α : Type} (sep : Bytes) (textOf : α → Bytes) (a : α) (as : List α) :
    sep.intercalate ((a :: as).map textOf) =
      textOf a ++ as.flatMap fun b => sep ++ textOf b := by
  induction as generalizing a with
  | nil => simp
  | cons b as ih =>
    rw [List.map_cons, List.map_cons, List.intercalate_cons_cons, ← List.map_cons, ih]
    simp

theorem Printed.bases (h : Printed p before ⟨depth, content⟩) (bases : List Bytes) :
    Printed (Node.renderBases p bases) before ⟨depth, content ++ basesText bases⟩ := by
  cases bases with
  | nil => simpa [basesText, Node.renderBases] using h
  | cons base bases =>
    have hfirst := (h.write (text " : ")).write (text "public " ++ base)
    have hall := hfirst.foldl_writeAll (text ", ") (text "public " ++ ·) bases
    rw [basesText, if_neg (List.cons_ne_nil _ _), intercalate_map_cons, ← List.append_assoc,
      ← List.append_assoc]
    exact hall

theorem Printed.params (h : Printed p before ⟨depth, content⟩) (params : List Param) :
    Printed (Node.renderParams p params) before
      ⟨depth, content ++ (text ", ").intercalate (params.map Node.Param.written)⟩ := by
  cases params with
  | nil => simpa [Node.renderParams] using h
  | cons param params =>
    have hfirst := h.write (Node.Param.written param)
    have hall := hfirst.foldl_writeAll (text ", ") Node.Param.written params
    rw [intercalate_map_cons, ← List.append_assoc]
    exact hall

theorem Printed.field (h : Printed p before ⟨depth, content⟩) (type : TypeRef) (name : Bytes)
    (constexpr : Bool) :
    Printed (Node.renderField type name constexpr p) before
      ⟨depth, content ++ fieldText type name constexpr⟩ := by
  have hstatic : text "static constexpr " = text "static " ++ text "constexpr " := by decide
  cases hconstexpr : constexpr with
  | false =>
    have hall := h.write (type.written ++ text " " ++ name)
    simpa [Node.renderField, fieldText] using hall
  | true =>
    cases hflag : type.flags.has TypeFlags.static with
    | false =>
      have hall := (h.write (text "constexpr ")).write (type.written ++ text " " ++ name)
      simpa [Node.renderField, fieldText, hflag] using hall
    | true =>
      have hall := ((h.write (text "static ")).write (text "constexpr ")).write
        (TypeRef.written { type with flags := type.flags ^^^ TypeFlags.static } ++ text " " ++ name)
      simpa [Node.renderField, fieldText, hflag, hstatic] using hall

theorem Printed.signature (h : Printed p before ⟨depth, content⟩) (result : TypeRef) (name : Bytes)
    (params : List Param) (isVirtual : Bool) :
    Printed (Node.renderSignature result name params isVirtual p) before
      ⟨depth, content ++ signatureText result name params isVirtual⟩ := by
  have hvirtual : Printed (if isVirtual then p.write (text "virtual ") else p) before
      ⟨depth, content ++ if isVirtual then text "virtual " else []⟩ := by
    split_ifs
    · exact h.write _
    · rwa [List.append_nil]
  have hfront := hvirtual.write (result.written ++ text " " ++ name ++ text "(")
  have hall := (hfront.params params).write (text ")")
  simpa only [Node.renderSignature, signatureText, List.append_assoc] using hall

theorem Printed.inline (h : Printed p before ⟨depth, content⟩) {part : Node} (hpart : Inline part) :
    Printed (part.render p) before ⟨depth, content ++ inlineText part⟩ := by
  cases part with
  | identifier _ | literal _ | typeName _ =>
    simp only [Node.render]
    exact h.write _
  | _ => cases hpart

theorem Printed.inlineEach (h : Printed p before ⟨depth, content⟩) {parts : List Node}
    (hparts : ∀ part ∈ parts, Inline part) :
    Printed (Node.renderEach (·.write (text " ")) parts p) before
      ⟨depth, content ++ parts.flatMap fun part => text " " ++ inlineText part⟩ := by
  induction parts generalizing p content with
  | nil => simpa [Node.renderEach] using h
  | cons part parts ih =>
    rw [List.forall_mem_cons] at hparts
    rw [Node.renderEach]
    simpa using ih ((h.write (text " ")).inline hparts.1) hparts.2

end

-- ---------------------------------------------------------------------------
-- Trees print their lines
-- ---------------------------------------------------------------------------

/-- From the start of a line on, the step prints these lines and no part of another. -/
structure Prints (f : Printer → Printer) (depth : Nat) (printed : List Line) : Prop where
  run : ∀ {p : Printer} {before : List Line}, Printed p before ⟨depth, []⟩ →
    Printed (f p) (before ++ printed) ⟨depth, []⟩

section

variable {f g : Printer → Printer} {depth : Nat} {printed more : List Line}

theorem id_prints : Prints id depth [] := ⟨fun h => by rwa [List.append_nil]⟩

theorem newline_prints : Prints Printer.newline depth [⟨depth, []⟩] := ⟨fun h => h.newline⟩

theorem line_prints (s : Bytes) : Prints (·.line s) depth [⟨depth, s⟩] := ⟨fun h => h.line s⟩

theorem Prints.comp (hg : Prints g depth more) (hf : Prints f depth printed) :
    Prints (fun p => g (f p)) depth (printed ++ more) where
  run h := by
    rw [← List.append_assoc]
    exact hg.run (hf.run h)

theorem Prints.nested (hf : Prints f (depth + 1) printed) :
    Prints (fun p => (f p.indent).dedent) depth printed := ⟨fun h => (hf.run h.indent).dedent⟩

theorem label_prints (s : Bytes) :
    Prints (fun p => (p.dedent.line s).indent) (depth + 1) [⟨depth, s⟩] :=
  ⟨fun h => (h.dedent.line s).indent⟩

theorem renderComment_prints (content : Bytes) :
    Prints (Node.renderComment content) depth (textLines depth commentLine content) where
  run h := by
    simp only [Node.renderComment, commentLine_eq]
    exact h.foldl_line commentLine _

theorem renderVerbatim_prints (content : Bytes) :
    Prints (Node.renderVerbatim content) depth
      (textLines depth id (Text.dropTail [Ascii.newline] content)) :=
  ⟨fun h => h.foldl_line id _⟩

theorem renderEach_prints {step : Printer → Printer} {nodes : List Node}
    (hstep : Prints step depth printed)
    (hnodes : ∀ node ∈ nodes, Prints node.render depth (lines depth node)) :
    Prints (Node.renderEach step nodes) depth (linesOf printed depth nodes) := by
  induction nodes with
  | nil =>
    simp only [Node.renderEach, linesOf]
    exact id_prints
  | cons node nodes ih =>
    rw [List.forall_mem_cons] at hnodes
    simp only [Node.renderEach, linesOf]
    exact (ih hnodes.2).comp (hnodes.1.comp hstep)

end

/-- Each kind of node prints its lines if its children do. -/
theorem Laid.prints {depth : Nat} {node : Node} (h : Laid depth node) :
    Prints node.render depth (lines depth node) := by
  induction h with
  | @file depth heading _ _ ih =>
    simp only [Node.render, lines]
    have hheading : Prints (fun p => if heading = [] then p else Node.renderComment heading p) depth
        (if heading = [] then [] else textLines depth commentLine heading) := by
      split_ifs
      · exact id_prints
      · exact renderComment_prints heading
    exact ((renderEach_prints newline_prints ih).comp (line_prints _)).comp hheading
  | @scope depth path children _ _ ih =>
    simp only [Node.render, lines]
    split_ifs
    · exact renderEach_prints id_prints ih
    · exact (line_prints _).comp ((renderEach_prints id_prints ih).comp (line_prints _))
  | @struct depth name bases children _ _ _ ih =>
    simp only [Node.render, lines]
    have hopening : Prints (fun p => (Node.renderBases (p.write _) bases).line _) depth
        [⟨depth, text "struct " ++ name ++ basesText bases ++ text " \x7b"⟩] :=
      ⟨fun h => ((h.write _).bases bases).line _⟩
    exact (line_prints _).comp ((renderEach_prints id_prints ih).nested.comp hopening)
  | access _ _ ih =>
    simp only [Node.render, lines]
    exact (renderEach_prints id_prints ih).comp (label_prints _)
  | block _ ih =>
    simp only [Node.render, lines]
    exact (renderEach_prints id_prints ih).nested
  | group _ ih =>
    simp only [Node.render, lines]
    exact renderEach_prints id_prints ih
  | @statement depth parts hparts =>
    cases parts with
    | nil =>
      simp only [Node.render, lines]
      exact line_prints _
    | cons part parts =>
      rw [List.forall_mem_cons] at hparts
      simp only [Node.render, lines, intercalate_map_cons]
      exact ⟨fun h => ((h.inline hparts.1).inlineEach hparts.2).line _⟩
  | includeFile _ | forward _ =>
    simp only [Node.render, lines]
    exact line_prints _
  | comment content =>
    simp only [Node.render, lines]
    exact renderComment_prints content
  | verbatim content =>
    simp only [Node.render, lines]
    exact renderVerbatim_prints content
  | @field depth type name init constexpr _ _ hinit =>
    cases init with
    | none =>
      simp only [Node.render, lines]
      exact ⟨fun h => (h.field type name constexpr).line _⟩
    | some value =>
      simp only [Node.render, lines]
      exact ⟨fun h => (((h.field type name constexpr).write _).inline (hinit value rfl)).line _⟩
  | @function depth result name params isVirtual isPure body _ _ _ _ ih =>
    cases body with
    | none =>
      simp only [Node.render, lines]
      exact ⟨fun h => (h.signature result name params _).line _⟩
    | some nodes =>
      simp only [Node.render, lines]
      split_ifs
      · exact ⟨fun h => (h.signature result name params _).line _⟩
      · have hopening : Prints (fun p => (Node.renderSignature result name params _ p).line _) depth
            [⟨depth, signatureText result name params (isVirtual || isPure) ++ text " \x7b"⟩] :=
          ⟨fun h => (h.signature result name params _).line _⟩
        have hbody := (renderEach_prints id_prints (ih nodes rfl)).nested
        exact (line_prints _).comp (hbody.comp hopening)

-- ---------------------------------------------------------------------------
-- Lines hold no line ends
-- ---------------------------------------------------------------------------

theorem newline_notMem_intercalate {sep : Bytes} {parts : List Bytes} (hsep : Ascii.newline ∉ sep)
    (hparts : ∀ part ∈ parts, Ascii.newline ∉ part) :
    Ascii.newline ∉ sep.intercalate parts := by
  cases parts with
  | nil => exact List.not_mem_nil
  | cons first others =>
    rw [List.forall_mem_cons] at hparts
    rw [← List.map_id (first :: others), intercalate_map_cons]
    refine List.not_mem_append hparts.1 fun hmem => ?_
    obtain ⟨part, hpart, hnewline⟩ := List.mem_flatMap.mp hmem
    exact List.not_mem_append hsep (hparts.2 part hpart) hnewline

theorem newline_notMem_type {type : TypeRef} (h : Ascii.newline ∉ type.name) :
    Ascii.newline ∉ type.written := by
  rw [TypeRef.written]
  refine List.not_mem_append (List.not_mem_append (List.not_mem_append ?_ ?_) h) ?_
  all_goals split_ifs <;> decide

theorem newline_notMem_inlineText {part : Node} (h : Inline part) :
    Ascii.newline ∉ inlineText part := by
  cases part with
  | identifier _ | literal _ => exact h
  | typeName type => exact newline_notMem_type h
  | _ => cases h

theorem newline_notMem_basesText {bases : List Bytes}
    (h : ∀ base ∈ bases, Ascii.newline ∉ base) : Ascii.newline ∉ basesText bases := by
  rw [basesText]
  split_ifs
  · exact List.not_mem_nil
  · refine List.not_mem_append (by decide) (newline_notMem_intercalate (by decide) ?_)
    exact List.forall_mem_map.mpr fun base hbase => List.not_mem_append (by decide) (h base hbase)

theorem newline_notMem_fieldText {type : TypeRef} {name : Bytes}
    (htype : Ascii.newline ∉ type.name) (hname : Ascii.newline ∉ name) (constexpr : Bool) :
    Ascii.newline ∉ fieldText type name constexpr := by
  refine List.not_mem_append (List.not_mem_append ?_ (by decide)) hname
  split_ifs
  · exact List.not_mem_append (by decide) (newline_notMem_type htype)
  · exact List.not_mem_append (by decide) (newline_notMem_type htype)
  · exact newline_notMem_type htype

theorem newline_notMem_signatureText {result : TypeRef} {name : Bytes} {params : List Param}
    (hresult : Ascii.newline ∉ result.name) (hname : Ascii.newline ∉ name)
    (hparams : ∀ param ∈ params, Ascii.newline ∉ param.type.name ∧ Ascii.newline ∉ param.name)
    (isVirtual : Bool) : Ascii.newline ∉ signatureText result name params isVirtual := by
  have hvirtual : Ascii.newline ∉ (if isVirtual then text "virtual " else []) := by
    split_ifs <;> decide
  have hwritten : ∀ param ∈ params, Ascii.newline ∉ Node.Param.written param := by
    intro param hparam
    obtain ⟨htype, hparamName⟩ := hparams param hparam
    exact List.not_mem_append
      (List.not_mem_append (newline_notMem_type htype) (by decide)) hparamName
  have hlist : Ascii.newline ∉ (text ", ").intercalate (params.map Node.Param.written) :=
    newline_notMem_intercalate (by decide) (List.forall_mem_map.mpr hwritten)
  have hblank : Ascii.newline ∉ text " " := by decide
  have hopening : Ascii.newline ∉ text "(" := by decide
  have hclosing : Ascii.newline ∉ text ")" := by decide
  simp only [signatureText, List.mem_append, not_or]
  exact ⟨⟨⟨⟨⟨⟨hvirtual, newline_notMem_type hresult⟩, hblank⟩, hname⟩, hopening⟩, hlist⟩, hclosing⟩

def Single (printed : List Line) : Prop := ∀ line ∈ printed, Ascii.newline ∉ line.content

section

variable {depth : Nat} {printed more : List Line} {content : Bytes}

theorem single_line (h : Ascii.newline ∉ content) : Single [⟨depth, content⟩] :=
  List.forall_mem_singleton.mpr h

theorem Single.append (h : Single printed) (h' : Single more) : Single (printed ++ more) :=
  List.forall_mem_append.mpr ⟨h, h'⟩

theorem single_textLines {lineOf : Bytes → Bytes}
    (h : ∀ {s : Bytes}, Ascii.newline ∉ s → Ascii.newline ∉ lineOf s) :
    Single (textLines depth lineOf content) :=
  List.forall_mem_map.mpr fun _ hs => h (Text.notMem_of_mem_splitOn hs)

theorem single_comment : Single (textLines depth commentLine content) :=
  single_textLines fun h => newline_notMem_commentLine h 0

theorem single_linesOf {nodes : List Node} (hbefore : Single printed)
    (hnodes : ∀ node ∈ nodes, Single (lines depth node)) :
    Single (linesOf printed depth nodes) := by
  induction nodes with
  | nil =>
    rw [linesOf]
    exact List.forall_mem_nil _
  | cons node nodes ih =>
    rw [List.forall_mem_cons] at hnodes
    rw [linesOf]
    exact (hbefore.append hnodes.1).append (ih hnodes.2)

theorem Laid.single {node : Node} (h : Laid depth node) : Single (lines depth node) := by
  have hnone : Single [] := List.forall_mem_nil _
  induction h with
  | file heading _ ih =>
    rw [lines]
    refine Single.append ?_ ((single_line (by decide)).append
      (single_linesOf (single_line List.not_mem_nil) ih))
    split_ifs
    · exact hnone
    · exact single_comment
  | @scope depth path children hpath _ ih =>
    rw [lines]
    have hname : Ascii.newline ∉ Node.scopeName path :=
      newline_notMem_intercalate (by decide) hpath
    have hopening : Ascii.newline ∉ text "namespace " ++ Node.scopeName path ++ text " \x7b" :=
      List.not_mem_append (List.not_mem_append (by decide) hname) (by decide)
    have hclosing : Ascii.newline ∉ text "\x7d // namespace " ++ Node.scopeName path :=
      List.not_mem_append (by decide) hname
    split_ifs
    · exact single_linesOf hnone ih
    · exact ((single_line hopening).append (single_linesOf hnone ih)).append
        (single_line hclosing)
  | @struct depth name bases children hname hbases _ ih =>
    rw [lines]
    have hopening : Ascii.newline ∉ text "struct " ++ name ++ basesText bases ++ text " \x7b" :=
      List.not_mem_append (List.not_mem_append (List.not_mem_append (by decide) hname)
        (newline_notMem_basesText hbases)) (by decide)
    exact ((single_line hopening).append (single_linesOf hnone ih)).append
      (single_line (by decide))
  | access hlabel _ ih =>
    rw [lines]
    exact (single_line (List.not_mem_append hlabel (by decide))).append (single_linesOf hnone ih)
  | block _ ih | group _ ih =>
    rw [lines]
    exact single_linesOf hnone ih
  | @statement depth parts hparts =>
    rw [lines]
    have htexts : Ascii.newline ∉ (text " ").intercalate (parts.map inlineText) :=
      newline_notMem_intercalate (by decide) (List.forall_mem_map.mpr fun part hpart =>
        newline_notMem_inlineText (hparts part hpart))
    exact single_line (List.not_mem_append htexts (by decide))
  | includeFile hpath =>
    rw [lines]
    exact single_line hpath
  | forward hname =>
    rw [lines]
    exact single_line (List.not_mem_append (List.not_mem_append (by decide) hname) (by decide))
  | comment content =>
    rw [lines]
    exact single_comment
  | verbatim content =>
    rw [lines]
    exact single_textLines id
  | @field depth type name init constexpr htype hname hinit =>
    have hfield := newline_notMem_fieldText htype hname constexpr
    cases init with
    | none =>
      rw [lines]
      exact single_line (List.not_mem_append hfield (by decide))
    | some value =>
      have hvalue := newline_notMem_inlineText (hinit value rfl)
      rw [lines]
      exact single_line (List.not_mem_append (List.not_mem_append (List.not_mem_append hfield
        (by decide)) hvalue) (by decide))
  | @function depth result name params isVirtual isPure body hresult hname hparams _ ih =>
    have hsignature := newline_notMem_signatureText hresult hname hparams (isVirtual || isPure)
    cases body with
    | none =>
      rw [lines]
      refine single_line (List.not_mem_append hsignature ?_)
      split_ifs <;> decide
    | some nodes =>
      rw [lines]
      split_ifs
      · exact single_line (List.not_mem_append hsignature (by decide))
      · exact ((single_line (List.not_mem_append hsignature (by decide))).append
          (single_linesOf hnone (ih nodes rfl))).append (single_line (by decide))

end

theorem splitOn_unlines {shown : List Bytes} (h : ∀ line ∈ shown, Ascii.newline ∉ line) :
    Text.splitOn Ascii.newline (unlines shown) = shown ++ [[]] := by
  induction shown with
  | nil => rfl
  | cons line shown ih =>
    rw [List.forall_mem_cons] at h
    rw [unlines_cons, Text.splitOn_append_cons, Text.splitOn_of_notMem h.1, ih h.2]
    rfl

theorem Line.newline_notMem_shown {line : Line} (h : Ascii.newline ∉ line.content) :
    Ascii.newline ∉ line.shown := by
  rw [Line.shown]
  split_ifs
  · exact List.not_mem_nil
  · refine List.not_mem_append (fun hmem => ?_) h
    exact absurd (List.eq_of_mem_replicate hmem) (by decide)

end ClassHeader.Cpp.Layout
