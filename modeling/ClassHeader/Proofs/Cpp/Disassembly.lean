import ClassHeader.Proofs.Cpp.Render
import ClassHeader.Proofs.Text.Basic

/-!
# Disassembly

Showing the instructions of methods adds lines of comments to a header and does nothing
else: a header can be built with them if it can be built without them, and its other
lines are the same. Two printers are compared that agree on everything but such lines;
whatever both print next, they go on to agree, and a comment that one of them prints
from the start of a line changes nothing, whatever bytes it shows.
-/

namespace ClassHeader.Cpp

-- ---------------------------------------------------------------------------
-- Lines of code
-- ---------------------------------------------------------------------------

/-- Two slashes are the first bytes of the line that are no blanks. -/
def isCommentLine (line : Bytes) : Bool :=
  (text "//").isPrefixOf (line.dropWhile (· = Ascii.blank))

def codeLines (s : Bytes) : List Bytes :=
  (Text.splitOn Ascii.newline s).filter (!isCommentLine ·)

def withoutComments (s : Bytes) : Bytes := [Ascii.newline].intercalate (codeLines s)

example : withoutComments (text "a;\n    // b\n//\n\nc; // d") = text "a;\n\nc; // d" := by decide

theorem codeLines_append_cons (front s : Bytes) :
    codeLines (front ++ Ascii.newline :: s) = codeLines front ++ codeLines s := by
  rw [codeLines, Text.splitOn_append_cons, List.filter_append]
  rfl

theorem codeLines_comment {line : Bytes} (hline : Ascii.newline ∉ line)
    (hcomment : isCommentLine line = true) : codeLines line = [] := by
  rw [codeLines, Text.splitOn_of_notMem hline]
  simp [hcomment]

theorem isCommentLine_indented (depth : Nat) (s : Bytes) :
    isCommentLine (Printer.indentation depth ++ (text "//" ++ s)) = true := by
  have hblanks : ∀ b ∈ Printer.indentation depth, decide (b = Ascii.blank) = true :=
    fun b hb => decide_eq_true (List.eq_of_mem_replicate hb)
  have hslashes : text "//" = [Ascii.slash, Ascii.slash] := by decide
  rw [isCommentLine, List.dropWhile_append_of_pos hblanks, hslashes, List.cons_append,
    List.dropWhile_cons_of_neg (by decide)]
  simp

/-- Whatever follows them, the two texts have the same lines of code. -/
def SameCode (s t : Bytes) : Prop := ∀ rest, codeLines (s ++ rest) = codeLines (t ++ rest)

theorem SameCode.append {s t : Bytes} (h : SameCode s t) (more : Bytes) :
    SameCode (s ++ more) (t ++ more) := by
  intro rest
  rw [List.append_assoc, List.append_assoc]
  exact h _

theorem sameCode_comment {line : Bytes} (front : Bytes) (hline : Ascii.newline ∉ line)
    (hcomment : isCommentLine line = true) :
    SameCode (front ++ [Ascii.newline] ++ (line ++ [Ascii.newline]))
      (front ++ [Ascii.newline]) := by
  intro rest
  simp only [List.append_assoc, List.cons_append, List.nil_append]
  rw [codeLines_append_cons, codeLines_append_cons, codeLines_append_cons,
    codeLines_comment hline hcomment, List.nil_append]

-- ---------------------------------------------------------------------------
-- Printers in step
-- ---------------------------------------------------------------------------

namespace Printer

/-- Two printers that are at the same place of the same code. -/
structure Agrees (p q : Printer) : Prop where
  left : p.Open
  right : q.Open
  depth : p.depth = q.depth
  midLine : p.midLine = q.midLine
  code : SameCode p.sink.text q.sink.text

theorem Open.eq_onto {p : Printer} (h : p.Open) :
    p = onto p.sink { depth := p.depth, midLine := p.midLine } := by
  obtain ⟨⟨capacity, refusal, taken, size, refused⟩, depth, midLine, error⟩ := p
  obtain ⟨hcapacity, herror⟩ := h
  dsimp only at hcapacity herror
  subst hcapacity herror
  rfl

theorem Open.agrees_self {p : Printer} (h : p.Open) : Agrees p p :=
  ⟨h, h, rfl, rfl, fun _ => rfl⟩

variable {p q : Printer}

theorem Agrees.symm (h : Agrees p q) : Agrees q p :=
  ⟨h.right, h.left, h.depth.symm, h.midLine.symm, fun rest => (h.code rest).symm⟩

theorem Agrees.trans {r : Printer} (h : Agrees p q) (h' : Agrees q r) : Agrees p r :=
  ⟨h.left, h'.right, h.depth.trans h'.depth, h.midLine.trans h'.midLine,
    fun rest => (h.code rest).trans (h'.code rest)⟩

/-- Both printers add the same text, since what is added depends only on their place. -/
theorem Steady.agrees {low : Nat} {f : Printer → Printer} (hf : Steady low f) (h : Agrees p q) :
    Agrees (f p) (f q) := by
  let place : Printer := { depth := p.depth, midLine := p.midLine }
  have hplace : place.Open := ⟨rfl, rfl⟩
  have hp : f p = (f place).onto p.sink := by
    conv_lhs => rw [h.left.eq_onto]
    exact hf.onto p.sink hplace
  have hq : f q = (f place).onto q.sink := by
    conv_lhs => rw [h.right.eq_onto, ← h.depth, ← h.midLine]
    exact hf.onto q.sink hplace
  refine ⟨hf.isOpen h.left, hf.isOpen h.right, ?_, ?_, ?_⟩
  · rw [hp, hq]
    rfl
  · rw [hp, hq]
    rfl
  · rw [hp, hq, text_onto, text_onto]
    exact h.code.append _

theorem Agrees.indent (h : Agrees p q) : Agrees p.indent q.indent :=
  ⟨h.left, h.right, congrArg (· + 1) h.depth, h.midLine, h.code⟩

theorem Agrees.dedent (h : Agrees p q) : Agrees p.dedent q.dedent :=
  ⟨h.left, h.right, congrArg (· - 1) h.depth, h.midLine, h.code⟩

structure AtLineStart (p : Printer) : Prop where
  isOpen : p.Open
  midLine : p.midLine = false
  behind : ∃ front, p.sink.text = front ++ [Ascii.newline]

theorem Open.text_newline (h : p.Open) : p.newline.sink.text = p.sink.text ++ [Ascii.newline] := by
  rw [newline, h.emit]
  simp [Sink.text, Sink.take]

theorem Open.atLineStart_line (h : p.Open) (s : Bytes) : AtLineStart (p.line s) where
  isOpen := (line_steady s).isOpen h
  midLine := rfl
  behind := ⟨_, ((write_steady s).isOpen h).text_newline⟩

theorem AtLineStart.indent (h : AtLineStart p) : AtLineStart p.indent :=
  ⟨h.isOpen, h.midLine, h.behind⟩

theorem Open.text_line (h : p.Open) (hstart : p.midLine = false) {s : Bytes} (hs : s ≠ []) :
    (p.line s).sink.text = p.sink.text ++ (indentation p.depth ++ s ++ [Ascii.newline]) := by
  have hindented : p.indented.text = p.sink.text ++ indentation p.depth := by
    unfold indented
    split_ifs with hmid hdepth
    · rw [hstart] at hmid
      cases hmid
    · simp [Sink.text, Sink.take]
    · simp [indentation, Nat.eq_zero_of_not_pos hdepth]
  have htake : (p.indented.take s).text = p.indented.text ++ s := by
    simp [Sink.text, Sink.take]
  rw [line, ((write_steady s).isOpen h).text_newline, h.write hs, htake, hindented]
  simp only [List.append_assoc]

theorem AtLineStart.agrees_comment (h : AtLineStart p) {s : Bytes} (hs : Ascii.newline ∉ s) :
    Agrees (p.line (text "//" ++ s)) p := by
  obtain ⟨front, hfront⟩ := h.behind
  have hslashes : text "//" = [Ascii.slash, Ascii.slash] := by decide
  refine ⟨(line_steady _).isOpen h.isOpen, h.isOpen, ?_, h.midLine.symm, ?_⟩
  · exact (line_steady _).depth h.isOpen (Nat.zero_le _)
  · rw [h.isOpen.text_line h.midLine (by simp [hslashes]), hfront]
    refine sameCode_comment front ?_ (isCommentLine_indented _ s)
    simp only [List.mem_append, not_or]
    refine ⟨fun hmem => ?_, by decide, hs⟩
    cases List.eq_of_mem_replicate hmem

end Printer

namespace Node

open Printer

variable {p q : Printer}

theorem agrees_foldl_lines {pieces : List Bytes} (hpieces : ∀ s ∈ pieces, Ascii.newline ∉ s)
    (h : AtLineStart p) :
    let shown := pieces.foldl (fun p s => p.line
      (if s = [] then ClassHeader.text "//" else ClassHeader.text "// " ++ s)) p
    Agrees shown p ∧ AtLineStart shown := by
  induction pieces generalizing p with
  | nil => exact ⟨h.isOpen.agrees_self, h⟩
  | cons s pieces ih =>
    rw [List.forall_mem_cons] at hpieces
    obtain ⟨hrest, hstart⟩ := ih hpieces.2 (h.isOpen.atLineStart_line _)
    refine ⟨hrest.trans ?_, hstart⟩
    split_ifs
    · exact h.agrees_comment List.not_mem_nil
    · have hblank : Ascii.newline ∉ Ascii.blank :: s :=
        List.not_mem_cons_of_ne_of_not_mem (by decide) hpieces.1
      exact h.agrees_comment hblank

theorem agrees_renderEach_comments {comments : List Node}
    (hcomments : ∀ node ∈ comments, ∃ content, node = .comment content) (h : AtLineStart p) :
    Agrees (renderEach id comments p) p ∧ AtLineStart (renderEach id comments p) := by
  induction comments generalizing p with
  | nil =>
    rw [renderEach]
    exact ⟨h.isOpen.agrees_self, h⟩
  | cons node comments ih =>
    rw [List.forall_mem_cons] at hcomments
    obtain ⟨content, rfl⟩ := hcomments.1
    have hfirst : Agrees (renderComment content p) p ∧ AtLineStart (renderComment content p) :=
      agrees_foldl_lines (fun s => Text.notMem_of_mem_splitOn) h
    obtain ⟨hrest, hstart⟩ := ih hcomments.2 hfirst.2
    rw [renderEach, id, render]
    exact ⟨hrest.trans hfirst.1, hstart⟩

-- ---------------------------------------------------------------------------
-- Trees of the same code
-- ---------------------------------------------------------------------------

/-- The two trees have the same code wherever they are printed. -/
def Alike (node other : Node) : Prop :=
  ∀ {p q : Printer}, Agrees p q → Agrees (node.render p) (other.render q)

theorem Alike.refl (node : Node) : Alike node node := fun h => (render_steady node).agrees h

theorem forall₂_alike_self (nodes : List Node) : List.Forall₂ Alike nodes nodes :=
  List.forall₂_same.mpr fun node _ => Alike.refl node

variable {nodes others : List Node}

theorem agrees_renderEach {before : Printer → Printer} (hbefore : Steady 0 before)
    (hnodes : List.Forall₂ Alike nodes others) (h : Agrees p q) :
    Agrees (renderEach before nodes p) (renderEach before others q) := by
  induction hnodes generalizing p q with
  | nil =>
    rw [renderEach, renderEach]
    exact h
  | cons hfirst _ ih =>
    rw [renderEach, renderEach]
    exact ih (hfirst (hbefore.agrees h))

theorem file_alike (heading : Bytes) (hnodes : List.Forall₂ Alike nodes others) :
    Alike (.file heading nodes) (.file heading others) := by
  intro p q h
  rw [render, render]
  have hheading :=
    (ite_steady (c := heading = []) id_steady (renderComment_steady heading)).agrees h
  exact agrees_renderEach newline_steady hnodes ((line_steady _).agrees hheading)

theorem scope_alike (path : List Bytes) (hnodes : List.Forall₂ Alike nodes others) :
    Alike (.scope path nodes) (.scope path others) := by
  intro p q h
  rw [render, render]
  split_ifs
  · exact agrees_renderEach id_steady hnodes h
  · exact (line_steady _).agrees (agrees_renderEach id_steady hnodes ((line_steady _).agrees h))

theorem struct_alike (name : Bytes) (bases : List Bytes)
    (hnodes : List.Forall₂ Alike nodes others) :
    Alike (.struct name bases nodes) (.struct name bases others) := by
  intro p q h
  rw [render, render]
  have hfront := ((line_steady (ClassHeader.text " \x7b")).comp
    ((renderBases_steady bases).comp (write_steady (ClassHeader.text "struct " ++ name)))).agrees h
  exact (line_steady _).agrees (agrees_renderEach id_steady hnodes hfront.indent).dedent

theorem access_alike (label : Bytes) (hnodes : List.Forall₂ Alike nodes others) :
    Alike (.access label nodes) (.access label others) := by
  intro p q h
  rw [render, render]
  exact agrees_renderEach id_steady hnodes ((line_steady _).agrees h.dedent).indent

/-- Two bodies of a function that end with the same statement and have only comments before it. -/
inductive SameBody : Option (List Node) → Option (List Node) → Prop
  | none : SameBody none none
  | some {comments others : List Node} (last : Node)
    (hcomments : ∀ node ∈ comments, ∃ content, node = .comment content)
    (hothers : ∀ node ∈ others, ∃ content, node = .comment content) :
    SameBody (some (comments ++ [last])) (some (others ++ [last]))

theorem function_alike (result : TypeRef) (name : Bytes) (params : List Param)
    (isVirtual isPure : Bool) {body body' : Option (List Node)} (hbody : SameBody body body') :
    Alike (.function result name params isVirtual isPure body)
      (.function result name params isVirtual isPure body') := by
  intro p q h
  cases hbody with
  | none => exact Alike.refl _ h
  | @some comments others last hcomments hothers =>
    have hsignature := (renderSignature_steady result name params (isVirtual || isPure)).agrees h
    rw [render, render]
    split_ifs
    · exact (line_steady _).agrees hsignature
    · -- The comments start behind the brace, at the start of a line on both sides.
      have hopened := ((line_steady (ClassHeader.text " \x7b")).agrees hsignature).indent
      have hleft := agrees_renderEach_comments hcomments
        (hsignature.left.atLineStart_line (ClassHeader.text " \x7b")).indent
      have hright := agrees_renderEach_comments hothers
        (hsignature.right.atLineStart_line (ClassHeader.text " \x7b")).indent
      have hlast := (hleft.1.trans hopened).trans hright.1.symm
      rw [renderEach_append, renderEach_append]
      exact (line_steady _).agrees
        (agrees_renderEach id_steady (forall₂_alike_self [last]) hlast).dedent

theorem Alike.withoutComments_text {node other : Node} (h : Alike node other) :
    withoutComments node.text = withoutComments other.text := by
  have hstart : Printer.Open { sink := { capacity := .unlimited } } := ⟨rfl, rfl⟩
  have hcode := (h hstart.agrees_self).code []
  rw [List.append_nil, List.append_nil] at hcode
  exact congrArg [Ascii.newline].intercalate hcode

end Node

-- ---------------------------------------------------------------------------
-- Headers with and without instructions
-- ---------------------------------------------------------------------------

namespace Header

open Node Result

variable (options options' : HeaderOptions)

theorem disassembly_comments (code : ResolvedCode) :
    ∀ node ∈ disassembly code, ∃ content, node = .comment content := by
  refine List.forall_mem_append.mpr ⟨fun node hnode => ?_, fun node hnode => ?_⟩
  · obtain ⟨_, _, rfl⟩ := List.mem_map.mp hnode
    exact ⟨_, rfl⟩
  · obtain ⟨_, _, rfl⟩ := List.mem_map.mp hnode
    exact ⟨_, rfl⟩

theorem methodBody_paired (inInterface : Bool) (m : ResolvedMethod) :
    Paired SameBody (methodBody options inInterface m) (methodBody options' inInterface m) := by
  have hshown : ∀ (shown : Bool) (code : ResolvedCode),
      ∀ node ∈ (if shown then disassembly code else []), ∃ content, node = .comment content := by
    intro shown code
    split_ifs
    · exact disassembly_comments code
    · exact List.forall_mem_nil _
  unfold methodBody
  cases m.code? with
  | none => exact .ok .none
  | some code =>
    by_cases hpure : isPure inInterface m = true
    · simp only [hpure, if_true]
      exact .ok .none
    · simp only [hpure]
      exact .behind _ fun last => .ok (.some last (hshown _ _) (hshown _ _))

theorem makeFunction_paired (result : TypeRef) (name : Bytes)
    (params : List (Option TypeRef × Bytes)) (isVirtual isPure : Bool)
    {body body' : Option (List Node)} (hbody : SameBody body body') :
    Paired Alike (makeFunction (some result) name params isVirtual isPure body)
      (makeFunction (some result) name params isVirtual isPure body') :=
  .behind _ fun _ => .behind _ fun _ => .ok (function_alike _ _ _ _ _ hbody)

theorem method_paired (inInterface : Bool) (m : ResolvedMethod) (name : Bytes) :
    Paired Alike (method options inInterface m name) (method options' inInterface m name) :=
  .behind _ fun _ => .behind _ fun _ => .behind _ fun _ =>
    (methodBody_paired options options' inInterface m).bind fun _ _ hbody =>
      makeFunction_paired _ _ _ _ _ hbody

theorem members_paired (c : ResolvedClass) :
    Paired (List.Forall₂ Alike) (members options c) (members options' c) := by
  have hmethods : ∀ inInterface, Paired (List.Forall₂ Alike)
      ((c.methods.zip (methodNames c)).mapM fun m =>
        (method options inInterface m.1 m.2).mapError (methodFault m.1.name))
      ((c.methods.zip (methodNames c)).mapM fun m =>
        (method options' inInterface m.1 m.2).mapError (methodFault m.1.name)) :=
    fun inInterface => .mapM fun m =>
      (method_paired options options' inInterface m.1 m.2).mapError (methodFault m.1.name)
  exact .behind _ fun fields => (hmethods _).bind fun _ _ h =>
    .ok (List.rel_append (forall₂_alike_self fields.flatten) h)

theorem makeStruct_paired (name : Bytes) (bases : List Bytes) {nodes others : List Node}
    (hnodes : List.Forall₂ Alike nodes others) :
    let labelled := fun nodes : List Node =>
      if nodes.isEmpty then [] else [some (Node.access (text "public") nodes)]
    Paired Alike (makeStruct name bases (labelled nodes))
      (makeStruct name bases (labelled others)) := by
  refine .behind _ fun _ => .behind _ fun _ => ?_
  cases hnodes with
  | nil => exact .ok (Alike.refl _)
  | cons hfirst hrest =>
    exact .ok (struct_alike name bases (.cons (access_alike _ (.cons hfirst hrest)) .nil))

theorem definition_paired (c : ResolvedClass) :
    Paired Alike (definition options c) (definition options' c) :=
  .behind _ fun path => (members_paired options options' c).bind fun _ _ hnodes =>
    (makeStruct_paired _ _ hnodes).bind fun _ _ hstruct =>
      .ok (scope_alike path (List.rel_append (forall₂_alike_self _) (.cons hstruct .nil)))

end Header

open Result in
theorem header_paired (comment : Bytes) (shown shown' : Bool) (order : List Bytes)
    (classes : List ResolvedClass) :
    Paired Node.Alike (header ⟨comment, shown⟩ order classes)
      (header ⟨comment, shown'⟩ order classes) := by
  have hdefinitions : Paired (List.Forall₂ Node.Alike)
      (classes.mapM fun c =>
        (Header.definition ⟨comment, shown⟩ c).mapError (·.withClass .codegen c.name))
      (classes.mapM fun c =>
        (Header.definition ⟨comment, shown'⟩ c).mapError (·.withClass .codegen c.name)) :=
    .mapM fun c => (Header.definition_paired _ _ c).mapError _
  exact .behind _ fun declarations => hdefinitions.bind fun _ _ h =>
    .ok (Node.file_alike _ (List.rel_append (Node.forall₂_alike_self _) h))

section

variable {σ : Type} (order : List Bytes)

theorem run_build (lookup : Bytes → StateM σ (Result ResolvedClass)) (options : HeaderOptions)
    (world : σ) :
    (build options (some lookup) order).run world =
      (((lookupAll lookup order).run world).1 >>= header options order,
        ((lookupAll lookup order).run world).2) := rfl

/-- Whatever the classes hold, a header can be built with their instructions exactly if it can be
built without them, and apart from lines of comments the texts of both are the same. -/
theorem build_disassemble (lookup : Option (Bytes → StateM σ (Result ResolvedClass)))
    (comment : Bytes) (world : σ) :
    let shown := (build ⟨comment, true⟩ lookup order).run world
    let plain := (build ⟨comment, false⟩ lookup order).run world
    shown.2 = plain.2 ∧
      ((∃ e, shown.1 = .error e ∧ plain.1 = .error e) ∨
        ∃ node other, shown.1 = .ok node ∧ plain.1 = .ok other ∧
          withoutComments node.text = withoutComments other.text) := by
  cases lookup with
  | none => exact ⟨rfl, .inl ⟨_, rfl, rfl⟩⟩
  | some lookup =>
    rw [run_build, run_build]
    refine ⟨rfl, ?_⟩
    have hpaired := Result.Paired.behind ((lookupAll lookup order).run world).1 fun classes =>
      header_paired comment true false order classes
    rcases hpaired.error_or_ok with hfails | ⟨node, other, hshown, hplain, halike⟩
    · exact .inl hfails
    · exact .inr ⟨node, other, hshown, hplain, halike.withoutComments_text⟩

end

end ClassHeader.Cpp
