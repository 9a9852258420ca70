import ClassHeader.Cpp.Header
import ClassHeader.Proofs.Result

/-!
# Text of rendered trees

What a printer adds does not depend on the text before it. A declaration of a
header starts and ends at the start of a line without indentation, so the text of
a header is the text of its declarations, one after another.
-/

namespace ClassHeader.Cpp

namespace Printer

/-- The same printer behind text that was taken before. -/
def onto (front : Sink) (p : Printer) : Printer :=
  { p with sink := { p.sink with
      refusal := front.refusal, taken := p.sink.taken ++ front.taken
      size := front.size + p.sink.size, refused := p.sink.refused ++ front.refused } }

def Open (p : Printer) : Prop := p.sink.capacity = .unlimited ∧ p.error = none

theorem text_onto (front : Sink) (p : Printer) :
    (p.onto front).sink.text = front.text ++ p.sink.text := by
  simp [onto, Sink.text]

/-- What a step adds does not depend on earlier text, and it keeps indentations of `low` levels
and more. -/
structure Steady (low : Nat) (f : Printer → Printer) : Prop where
  onto : ∀ {p : Printer} (front : Sink), p.Open → f (p.onto front) = (f p).onto front
  isOpen : ∀ {p : Printer}, p.Open → (f p).Open
  depth : ∀ {p : Printer}, p.Open → low ≤ p.depth → (f p).depth = p.depth

theorem Open.emit {p : Printer} (h : p.Open) (piece : Bytes) :
    p.emit piece = { p with sink := p.sink.take piece } := by
  simp [Printer.emit, h.2, Sink.accepts, h.1]

theorem emit_steady (piece : Bytes) : Steady 0 (·.emit piece) where
  onto {p} front hp := by
    have hfront : (p.onto front).Open := hp
    rw [hfront.emit, hp.emit]
    simp [Printer.onto, Sink.take, Nat.add_assoc]
  isOpen {p} hp := by
    rw [hp.emit]
    exact hp
  depth {p} hp _ := by rw [hp.emit]

variable {low : Nat} {f g : Printer → Printer}

theorem Steady.comp (hg : Steady low g) (hf : Steady low f) : Steady low fun p => g (f p) where
  onto {p} front hp := by rw [hf.onto front hp, hg.onto front (hf.isOpen hp)]
  isOpen hp := hg.isOpen (hf.isOpen hp)
  depth {p} hp hlow := by rw [hg.depth (hf.isOpen hp) (by rwa [hf.depth hp hlow]), hf.depth hp hlow]

theorem Steady.mono (hf : Steady 0 f) : Steady low f where
  onto := hf.onto
  isOpen := hf.isOpen
  depth hp _ := hf.depth hp (Nat.zero_le _)

theorem ite_steady {c : Prop} [Decidable c] (hf : Steady low f) (hg : Steady low g) :
    Steady low fun p => if c then f p else g p := by
  split_ifs
  · exact hf
  · exact hg

theorem id_steady : Steady 0 id where
  onto _ _ := rfl
  isOpen hp := hp
  depth _ _ := rfl

def indented (p : Printer) : Sink :=
  if p.midLine then p.sink
  else if 0 < p.depth then p.sink.take (indentation p.depth)
  else p.sink

theorem Open.write {p : Printer} (h : p.Open) {s : Bytes} (hs : s ≠ []) :
    p.write s = { p with sink := p.indented.take s, midLine := true } := by
  have hgoes : ¬ (p.error.isSome = true ∨ s = []) := by simp [h.2, hs]
  rw [Printer.write, if_neg hgoes]
  unfold indented
  split_ifs with hmid hdepth
  · rw [h.emit, hmid]
  · have hopen : ({ p with
        sink := p.sink.take (indentation p.depth), midLine := true } : Printer).Open := h
    rw [h.emit]
    exact hopen.emit s
  · have hopen : ({ p with midLine := true } : Printer).Open := h
    exact hopen.emit s

theorem write_steady (s : Bytes) : Steady 0 (·.write s) := by
  by_cases hs : s = []
  · have hid : (fun p : Printer => p.write s) = id := by
      funext p
      simp [write, hs]
    rw [hid]
    exact id_steady
  · refine ⟨fun {p} front hp => ?_, fun {p} hp => ?_, fun {p} hp _ => ?_⟩
    · have hfront : (p.onto front).Open := hp
      rw [hfront.write hs, hp.write hs]
      unfold indented
      split_ifs <;> simp_all [Printer.onto, Sink.take, Nat.add_assoc]
    · rw [hp.write hs]
      unfold indented
      split_ifs <;> exact hp
    · rw [hp.write hs]

theorem newline_steady : Steady 0 newline where
  onto {p} front hp := by
    rw [newline, newline, (emit_steady _).onto front hp]
    rfl
  isOpen {p} hp := (emit_steady [Ascii.newline]).isOpen hp
  depth {p} hp hlow := (emit_steady [Ascii.newline]).depth hp hlow

theorem line_steady (s : Bytes) : Steady 0 (·.line s) := newline_steady.comp (write_steady s)

theorem foldl_steady {α : Type} {step : Printer → α → Printer} (hstep : ∀ a, Steady low (step · a))
    (as : List α) : Steady low (as.foldl step ·) := by
  induction as with
  | nil => exact id_steady.mono
  | cons a as ih => exact ih.comp (hstep a)

theorem writeAll_steady (texts : List Bytes) : Steady 0 (·.writeAll texts) :=
  foldl_steady write_steady texts

theorem Steady.nested (hf : Steady 1 f) : Steady 0 fun p => (f p.indent).dedent where
  onto {p} front hp := by
    have hindent : p.indent.Open := hp
    have h := hf.onto front hindent
    show (f (p.indent.onto front)).dedent = _
    rw [h]
    rfl
  isOpen {p} hp := by
    have hindent : p.indent.Open := hp
    exact hf.isOpen hindent
  depth {p} hp _ := by
    have hindent : p.indent.Open := hp
    have h := hf.depth hindent (Nat.le_add_left 1 p.depth)
    show (f p.indent).depth - 1 = p.depth
    rw [h]
    rfl

/-- A label stands one level further out. -/
theorem label_steady (s : Bytes) : Steady 1 fun p => (p.dedent.line s).indent where
  onto {p} front hp := by
    have hdedent : p.dedent.Open := hp
    have h := (line_steady s).onto front hdedent
    show ((p.dedent.onto front).line s).indent = _
    rw [h]
    rfl
  isOpen {p} hp := by
    have hdedent : p.dedent.Open := hp
    exact (line_steady s).isOpen hdedent
  depth {p} hp hlow := by
    have hdedent : p.dedent.Open := hp
    have h := (line_steady s).depth hdedent (Nat.zero_le _)
    show (p.dedent.line s).depth + 1 = p.depth
    rw [h]
    exact Nat.sub_add_cancel hlow

end Printer

namespace Node

open Printer

theorem renderComment_steady (content : Bytes) : Steady 0 (renderComment content) :=
  foldl_steady (fun _ => line_steady _) _

theorem renderVerbatim_steady (content : Bytes) : Steady 0 (renderVerbatim content) :=
  foldl_steady line_steady _

theorem renderBases_steady (bases : List Bytes) : Steady 0 (renderBases · bases) := by
  cases bases with
  | nil => exact id_steady
  | cons base bases =>
    exact (foldl_steady (fun _ => writeAll_steady _) bases).comp (writeAll_steady _)

theorem renderParams_steady (params : List Param) : Steady 0 (renderParams · params) := by
  cases params with
  | nil => exact id_steady
  | cons param params =>
    exact (foldl_steady (fun _ => writeAll_steady _) params).comp (write_steady _)

theorem renderField_steady (type : TypeRef) (name : Bytes) (constexpr : Bool) :
    Steady 0 (renderField type name constexpr) := by
  unfold renderField
  exact (write_steady _).comp ((ite_steady (write_steady _) id_steady).comp
    (ite_steady (write_steady _) id_steady))

theorem renderSignature_steady (result : TypeRef) (name : Bytes) (params : List Param)
    (isVirtual : Bool) : Steady 0 (renderSignature result name params isVirtual) := by
  unfold renderSignature
  exact (write_steady _).comp ((renderParams_steady params).comp ((write_steady _).comp
    (ite_steady (write_steady _) id_steady)))

theorem struct_steady {children : List Node} (h : Steady 1 (renderEach id children)) (name : Bytes)
    (bases : List Bytes) : Steady 0 (Node.struct name bases children).render := by
  simp only [render]
  exact (line_steady _).comp (h.nested.comp ((line_steady _).comp
    ((renderBases_steady bases).comp (write_steady _))))

mutual

theorem render_steady : (node : Node) → Steady 1 node.render
  | .file heading children => by
    simp only [render]
    exact (renderEach_steady newline_steady.mono children).comp ((line_steady _).mono.comp
      (ite_steady id_steady.mono (renderComment_steady heading).mono))
  | .scope path children => by
    simp only [render]
    refine ite_steady (renderEach_steady id_steady.mono children) ?_
    exact (line_steady _).mono.comp
      ((renderEach_steady id_steady.mono children).comp (line_steady _).mono)
  | .struct name bases children =>
    (struct_steady (renderEach_steady id_steady.mono children) name bases).mono
  | .access label children => by
    simp only [render]
    exact (renderEach_steady id_steady.mono children).comp (label_steady _)
  | .block children => by
    simp only [render]
    exact (renderEach_steady id_steady.mono children).nested.mono
  | .group children => by
    simp only [render]
    exact renderEach_steady id_steady.mono children
  | .statement [] => by
    simp only [render]
    exact (line_steady _).mono
  | .statement (part :: parts) => by
    simp only [render]
    exact (line_steady _).mono.comp
      ((renderEach_steady (write_steady _).mono parts).comp (render_steady part))
  | .includeFile path system => by
    simp only [render]
    exact (line_steady _).mono
  | .forward name => by
    simp only [render]
    exact (line_steady _).mono
  | .comment content => by
    simp only [render]
    exact (renderComment_steady content).mono
  | .verbatim content => by
    simp only [render]
    exact (renderVerbatim_steady content).mono
  | .identifier name => by
    simp only [render]
    exact (write_steady _).mono
  | .literal written => by
    simp only [render]
    exact (write_steady _).mono
  | .typeName type => by
    simp only [render]
    exact (write_steady _).mono
  | .field type name none constexpr => by
    simp only [render]
    exact ((line_steady _).comp (renderField_steady type name constexpr)).mono
  | .field type name (some init) constexpr => by
    simp only [render]
    exact (line_steady _).mono.comp ((render_steady init).comp
      ((write_steady _).comp (renderField_steady type name constexpr)).mono)
  | .function result name params isVirtual isPure none => by
    simp only [render]
    exact ((line_steady _).comp (renderSignature_steady result name params _)).mono
  | .function result name params isVirtual isPure (some body) => by
    simp only [render]
    have hsignature := renderSignature_steady result name params (isVirtual || isPure)
    refine ite_steady ((line_steady _).comp hsignature).mono ?_
    exact ((line_steady _).comp ((renderEach_steady id_steady.mono body).nested.comp
      ((line_steady _).comp hsignature))).mono

theorem renderEach_steady {before : Printer → Printer} (hbefore : Steady 1 before) :
    (nodes : List Node) → Steady 1 (renderEach before nodes)
  | [] => by
    simp only [renderEach]
    exact id_steady.mono
  | node :: nodes => by
    simp only [renderEach]
    exact (renderEach_steady hbefore nodes).comp ((render_steady node).comp hbefore)

end

-- ---------------------------------------------------------------------------
-- Declarations
-- ---------------------------------------------------------------------------

/-- A step from the start of a line to the start of a line, at any depth. -/
structure Tidy (f : Printer → Printer) : Prop where
  steady : Steady 0 f
  midLine : ∀ {p : Printer}, p.Open → p.midLine = false → (f p).midLine = false

theorem line_tidy (s : Bytes) : Tidy (·.line s) := ⟨line_steady s, fun _ _ => rfl⟩

theorem newline_tidy : Tidy Printer.newline := ⟨newline_steady, fun _ _ => rfl⟩

theorem Tidy.comp {f g : Printer → Printer} (hg : Tidy g) (hf : Tidy f) :
    Tidy fun p => g (f p) where
  steady := hg.steady.comp hf.steady
  midLine hp h := hg.midLine (hf.steady.isOpen hp) (hf.midLine hp h)

theorem foldl_tidy {α : Type} {step : Printer → α → Printer} (hstep : ∀ a, Tidy (step · a))
    (as : List α) : Tidy (as.foldl step ·) := by
  induction as with
  | nil => exact ⟨id_steady, fun _ h => h⟩
  | cons a as ih => exact ih.comp (hstep a)

theorem renderEach_tidy {before : Printer → Printer} (hbefore : Tidy before) {nodes : List Node}
    (h : ∀ node ∈ nodes, Tidy node.render) : Tidy (renderEach before nodes) := by
  induction nodes with
  | nil =>
    simp only [renderEach]
    exact ⟨id_steady, fun _ h => h⟩
  | cons node nodes ih =>
    rw [List.forall_mem_cons] at h
    simp only [renderEach]
    exact (ih h.2).comp (h.1.comp hbefore)

theorem comment_tidy (content : Bytes) : Tidy (Node.comment content).render := by
  simp only [render]
  exact foldl_tidy (fun _ => line_tidy _) _

theorem verbatim_tidy (content : Bytes) : Tidy (Node.verbatim content).render := by
  simp only [render]
  exact foldl_tidy line_tidy _

theorem includeFile_tidy (path : Bytes) (system : Bool) :
    Tidy (Node.includeFile path system).render := by
  simp only [render]
  exact line_tidy _

theorem forward_tidy (name : Bytes) : Tidy (Node.forward name).render := by
  simp only [render]
  exact line_tidy _

theorem struct_tidy (name : Bytes) (bases : List Bytes) (children : List Node) :
    Tidy (Node.struct name bases children).render where
  steady := struct_steady (renderEach_steady id_steady.mono children) name bases
  midLine _ _ := by
    simp only [render]
    rfl

theorem scope_tidy {path : List Bytes} {children : List Node}
    (h : ∀ node ∈ children, Tidy node.render) : Tidy (Node.scope path children).render := by
  have hchildren := renderEach_tidy ⟨id_steady, fun _ h => h⟩ h
  by_cases hpath : path = []
  · simp only [render, hpath, if_true]
    exact hchildren
  · simp only [render, hpath, if_false]
    exact (line_tidy _).comp (hchildren.comp (line_tidy _))

def text (node : Node) : Bytes := (node.printInto .unlimited).sink.text

theorem result_printInto (node : Node) : (node.printInto .unlimited).result = .ok () := by
  have hopen : (node.printInto .unlimited).Open := (render_steady node).isOpen ⟨rfl, rfl⟩
  rw [Printer.result, hopen.2]
  rfl

structure Ready (p : Printer) : Prop where
  isOpen : p.Open
  depth : p.depth = 0
  midLine : p.midLine = false

theorem Tidy.ready {f : Printer → Printer} {p : Printer} (hf : Tidy f) (hp : Ready p) :
    Ready (f p) where
  isOpen := hf.steady.isOpen hp.isOpen
  depth := by rw [hf.steady.depth hp.isOpen (Nat.zero_le _), hp.depth]
  midLine := hf.midLine hp.isOpen hp.midLine

theorem Ready.eq_onto {p : Printer} (hp : Ready p) : p = Printer.onto p.sink {} := by
  obtain ⟨⟨capacity, taken, size⟩, depth, midLine, error⟩ := p
  obtain ⟨⟨hcapacity, herror⟩, hdepth, hmidLine⟩ := hp
  dsimp only at hcapacity herror hdepth hmidLine
  subst hcapacity herror hdepth hmidLine
  rfl

theorem Tidy.text_render {node : Node} {p : Printer} (h : Tidy node.render) (hp : Ready p) :
    (node.render p).sink.text = p.sink.text ++ node.text := by
  have hstart : Printer.Open {} := ⟨rfl, rfl⟩
  conv_lhs => rw [hp.eq_onto, h.steady.onto p.sink hstart, Printer.text_onto]
  rfl

theorem text_renderEach {nodes : List Node} {p : Printer} (h : ∀ node ∈ nodes, Tidy node.render)
    (hp : Ready p) :
    (renderEach Printer.newline nodes p).sink.text =
      p.sink.text ++ nodes.flatMap fun node => Ascii.newline :: node.text := by
  induction nodes generalizing p with
  | nil => simp [renderEach]
  | cons node nodes ih =>
    rw [List.forall_mem_cons] at h
    have hnewline := newline_tidy.ready hp
    have htext : p.newline.sink.text = p.sink.text ++ [Ascii.newline] := by
      rw [Printer.newline, hp.isOpen.emit]
      simp [Sink.text, Sink.take]
    rw [renderEach, ih h.2 (h.1.ready hnewline), h.1.text_render hnewline, htext]
    simp

theorem renderEach_append (before : Printer → Printer) (nodes others : List Node) (p : Printer) :
    renderEach before (nodes ++ others) p =
      renderEach before others (renderEach before nodes p) := by
  induction nodes generalizing p with
  | nil => simp [renderEach]
  | cons node nodes ih => rw [List.cons_append, renderEach, ih, renderEach]

/-- A file that goes on with declarations is the file without them and their texts. -/
theorem text_file_append {heading : Bytes} {children others : List Node}
    (hchildren : ∀ node ∈ children, Tidy node.render)
    (hothers : ∀ node ∈ others, Tidy node.render) :
    (Node.file heading (children ++ others)).text =
      (Node.file heading children).text ++
        others.flatMap fun node => Ascii.newline :: node.text := by
  have hstart : Ready { sink := { capacity := .unlimited } } := ⟨⟨rfl, rfl⟩, rfl, rfl⟩
  have hheading : Tidy fun p => if heading = [] then p else renderComment heading p := by
    split_ifs
    · exact ⟨id_steady, fun _ h => h⟩
    · exact foldl_tidy (fun _ => line_tidy _) _
  -- Behind the first children the printer is at the start of a line again.
  have hfront := (renderEach_tidy newline_tidy hchildren).ready
    ((line_tidy (ClassHeader.text "#pragma once")).ready (hheading.ready hstart))
  simp only [text, printInto, render, renderEach_append]
  exact text_renderEach hothers hfront

theorem adopt_ok {present nodes : List Node} {children : List (Option Node)}
    (h : adopt present children = .ok nodes) : nodes = present ++ children.filterMap id := by
  unfold adopt at h
  split at h
  · cases h
  · cases h
    rfl

theorem makeStruct_ok {name : Bytes} {bases : List Bytes} {children : List (Option Node)}
    {node : Node} (h : makeStruct name bases children = .ok node) :
    node = .struct name bases (children.filterMap id) := by
  simp only [makeStruct, Result.bind_ok_iff, Result.pure_ok_iff] at h
  obtain ⟨_, _, _, _, members, hmembers, rfl⟩ := h
  rw [adopt_ok hmembers, List.nil_append]

end Node

namespace Header

open Node

theorem definition_tidy {options : HeaderOptions} {c : ResolvedClass} {node : Node}
    (h : definition options c = .ok node) : Tidy node.render := by
  simp only [definition, Result.bind_ok_iff, Result.pure_ok_iff] at h
  obtain ⟨path, _, members, _, struct, hstruct, rfl⟩ := h
  rw [makeStruct_ok hstruct]
  refine scope_tidy fun node hnode => ?_
  rcases List.mem_append.mp hnode with horigin | hlast
  · split_ifs at horigin
    · cases horigin
    · rw [List.mem_singleton.mp horigin]
      exact comment_tidy _
  · rw [List.mem_singleton.mp hlast]
    exact struct_tidy _ _ _

theorem declarations_tidy {names : List Bytes} {nodes : List Node}
    (h : declarations names = .ok nodes) : ∀ node ∈ nodes, Tidy node.render := by
  intro node hnode
  obtain ⟨package, _, hscope⟩ := Result.exists_of_mem_mapM h hnode
  simp only [makeScope, Result.bind_ok_iff, Result.pure_ok_iff] at hscope
  obtain ⟨path, _, children, hchildren, rfl⟩ := hscope
  refine scope_tidy fun child hchild => ?_
  rw [adopt_ok hchildren] at hchild
  obtain ⟨declared, hdeclared, hsome⟩ := List.mem_filterMap.mp hchild
  obtain ⟨name, _, rfl⟩ := List.mem_map.mp hdeclared
  cases hsome
  exact forward_tidy _

theorem opening_tidy : ∀ node ∈ opening, Tidy node.render := by
  unfold opening
  simp only [List.forall_mem_cons]
  refine ⟨?_, ?_, ?_, fun _ h => by cases h⟩
  · exact includeFile_tidy _ _
  · exact includeFile_tidy _ _
  · exact verbatim_tidy _

end Header

theorem header_ok {options : HeaderOptions} {order : List Bytes} {classes : List ResolvedClass}
    {node : Node} (h : header options order classes = .ok node) :
    ∃ heading declarations definitions,
      Header.declarations (Header.declaredNames order classes) = .ok declarations ∧
      classes.mapM (Header.definition options) = .ok definitions ∧
      node = .file heading (Header.opening ++ declarations ++ definitions) := by
  simp only [header, Result.bind_ok_iff, Result.pure_ok_iff] at h
  obtain ⟨declarations, hdeclarations, definitions, hdefinitions, rfl⟩ := h
  refine ⟨_, declarations, definitions, hdeclarations, ?_, rfl⟩
  simpa only [Result.mapM_ok_iff, Result.mapError_ok_iff] using hdefinitions

/-- The text of a header goes on behind its declarations with the definitions of its classes. -/
theorem header_text {options : HeaderOptions} {order : List Bytes} {classes : List ResolvedClass}
    {node : Node} (h : header options order classes = .ok node) :
    ∃ heading declarations definitions,
      Header.declarations (Header.declaredNames order classes) = .ok declarations ∧
      List.Forall₂ (fun c d => Header.definition options c = .ok d) classes definitions ∧
      node.text = (Node.file heading (Header.opening ++ declarations)).text ++
        definitions.flatMap fun d => Ascii.newline :: d.text := by
  obtain ⟨heading, declarations, definitions, hdeclarations, hdefinitions, rfl⟩ := header_ok h
  refine ⟨heading, declarations, definitions, hdeclarations, Result.mapM_ok_iff.mp hdefinitions,
    Node.text_file_append ?_ ?_⟩
  · intro node hnode
    rcases List.mem_append.mp hnode with hopening | hdeclared
    · exact Header.opening_tidy node hopening
    · exact Header.declarations_tidy hdeclarations node hdeclared
  · intro node hnode
    obtain ⟨c, _, hc⟩ := Result.exists_of_mem_mapM hdefinitions hnode
    exact Header.definition_tidy hc

end ClassHeader.Cpp
