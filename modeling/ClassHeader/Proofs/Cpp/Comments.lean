import ClassHeader.Proofs.Cpp.Disassembly

/-!
# Comments

A C++ compiler joins a line that ends with a backslash to the next line before it looks
for comments. The text of a header consists of pieces of code and of comments, all of
them whole lines, and each line of a comment starts with its slashes. What stands in a
comment is never changed, so a line of a comment ends with a backslash whenever its
content does, and then the comment goes on with the next line of the file.
-/

namespace ClassHeader.Cpp

-- ---------------------------------------------------------------------------
-- Joined lines
-- ---------------------------------------------------------------------------

/-- The text in which each line that ends with a backslash is joined to the next one. -/
def splice : Bytes → Bytes
  | [] => []
  | [b] => [b]
  | b :: c :: rest =>
    if b = Ascii.backslash ∧ c = Ascii.newline then splice rest else b :: splice (c :: rest)

example : splice (text "a\\\nb\\c\n") = text "ab\\c\n" := by decide

theorem splice_newline_cons (s : Bytes) :
    splice (Ascii.newline :: s) = Ascii.newline :: splice s := by
  cases s with
  | nil => rfl
  | cons b s => rw [splice, if_neg fun h => absurd h.1 (by decide)]

theorem splice_append (s t : Bytes) :
    splice (s ++ Ascii.newline :: t) = splice (s ++ [Ascii.newline]) ++ splice t := by
  induction s using splice.induct with
  | case1 => exact splice_newline_cons t
  | case2 b =>
    by_cases hb : b = Ascii.backslash
    · simp [splice, hb]
    · simp [splice, hb, splice_newline_cons t]
  | case3 b c rest hjoined ih =>
    simp only [List.cons_append, splice, if_pos hjoined]
    exact ih
  | case4 b c rest hapart ih =>
    simp only [List.cons_append, splice, if_neg hapart]
    exact congrArg (b :: ·) ih

/-- A single line loses its end exactly when it ends with a backslash. -/
theorem splice_line {line : Bytes} (h : Ascii.newline ∉ line) :
    splice (line ++ [Ascii.newline]) =
      if line.getLast? = some Ascii.backslash then line.dropLast else line ++ [Ascii.newline] := by
  induction line using splice.induct with
  | case1 => rfl
  | case2 b =>
    by_cases hb : b = Ascii.backslash
    · simp [splice, hb]
    · simp [splice, hb]
  | case3 b c rest hjoined _ => simp [hjoined.2] at h
  | case4 b c rest hapart ih =>
    have hrest := ih (List.not_mem_of_not_mem_cons h)
    simp only [List.cons_append, splice, if_neg hapart] at hrest ⊢
    rw [hrest, List.getLast?_cons_cons, List.dropLast_cons_cons]
    split_ifs <;> rfl

theorem getLast?_append_cons (front : Bytes) {back : Bytes} {b last : UInt8} (hb : b ≠ last) :
    (front ++ b :: back).getLast? = some last ↔ back.getLast? = some last := by
  cases back with
  | nil => simp [hb]
  | cons c back => simp [List.getLast?_cons_cons]

def unlines (lines : List Bytes) : Bytes := lines.flatMap (· ++ [Ascii.newline])

theorem unlines_cons (line : Bytes) (lines : List Bytes) :
    unlines (line :: lines) = line ++ Ascii.newline :: unlines lines := by
  simp [unlines]

theorem unlines_singleton (line : Bytes) : unlines [line] = line ++ [Ascii.newline] :=
  List.flatMap_singleton ..

theorem unlines_append (lines others : List Bytes) :
    unlines (lines ++ others) = unlines lines ++ unlines others := List.flatMap_append

theorem intercalate_append (front : List Bytes) (last : Bytes) :
    [Ascii.newline].intercalate (front ++ [last]) = unlines front ++ last := by
  induction front with
  | nil => simp [unlines]
  | cons line front ih =>
    rw [List.cons_append, List.intercalate_cons_of_ne_nil (by simp), ih, unlines_cons]
    simp

theorem eq_unlines_append {s last : Bytes} {front : List Bytes}
    (h : Text.splitOn Ascii.newline s = front ++ [last]) : s = unlines front ++ last := by
  rw [Text.splitOn_eq] at h
  rw [← intercalate_append, ← h, List.intercalate_splitOn]

section

variable {lines : List Bytes}

theorem splice_unlines_cons (line : Bytes) (lines : List Bytes) :
    splice (unlines (line :: lines)) =
      splice (line ++ [Ascii.newline]) ++ splice (unlines lines) := by
  rw [unlines_cons, splice_append]

theorem splice_unlines_append (lines others : List Bytes) :
    splice (unlines (lines ++ others)) = splice (unlines lines) ++ splice (unlines others) := by
  induction lines with
  | nil => rfl
  | cons line lines ih =>
    rw [List.cons_append, splice_unlines_cons, ih, splice_unlines_cons, List.append_assoc]

theorem length_splice_le (s : Bytes) : (splice s).length ≤ s.length := by
  induction s using splice.induct with
  | case1 => rfl
  | case2 b => rfl
  | case3 b c rest hjoined ih =>
    rw [splice, if_pos hjoined, List.length_cons, List.length_cons]
    omega
  | case4 b c rest hapart ih =>
    rw [splice, if_neg hapart, List.length_cons, List.length_cons]
    exact Nat.succ_le_succ ih

theorem splice_unlines_eq_iff (h : ∀ line ∈ lines, Ascii.newline ∉ line) :
    splice (unlines lines) = unlines lines ↔
      ∀ line ∈ lines, line.getLast? ≠ some Ascii.backslash := by
  induction lines with
  | nil => simp [unlines, splice]
  | cons line lines ih =>
    rw [List.forall_mem_cons] at h ⊢
    rw [splice_unlines_cons, splice_line h.1, unlines_cons]
    split_ifs with hlast
    · -- The text got shorter, and it does not get longer again.
      have hshort := length_splice_le (unlines lines)
      refine iff_of_false (fun heq => ?_) (fun hall => hall.1 hlast)
      have hlength := congrArg List.length heq
      simp only [List.length_append, List.length_dropLast, List.length_cons] at hlength
      omega
    · rw [List.append_assoc, List.singleton_append, List.append_cancel_left_eq, List.cons.injEq,
        ih h.2]
      simp [hlast]

theorem getLast?_splice_unlines (lines : List Bytes) {last : Bytes} (h : Ascii.newline ∉ last)
    (hlong : 1 < last.length) :
    (splice (unlines (lines ++ [last]))).getLast? = some Ascii.newline ↔
      last.getLast? ≠ some Ascii.backslash := by
  rw [splice_unlines_append, unlines_singleton, splice_line h]
  split_ifs with hlast
  · refine iff_of_false (fun hend => ?_) (not_not.mpr hlast)
    have hne : last.dropLast ≠ [] := by
      rw [← List.length_pos_iff, List.length_dropLast]
      omega
    rw [List.getLast?_append_of_ne_nil _ hne] at hend
    exact h (List.mem_of_mem_dropLast (List.mem_of_getLast? hend))
  · simp [hlast]

end

-- ---------------------------------------------------------------------------
-- Lines of a comment
-- ---------------------------------------------------------------------------

def commentLine (s : Bytes) : Bytes := text "//" ++ if s = [] then [] else Ascii.blank :: s

theorem commentLine_eq (s : Bytes) :
    (if s = [] then text "//" else text "// " ++ s) = commentLine s := by
  unfold commentLine
  split_ifs
  · rfl
  · rw [show text "// " = text "//" ++ [Ascii.blank] by decide, List.append_assoc]
    rfl

def commentLines (depth : Nat) (content : Bytes) : List Bytes :=
  (Text.splitOn Ascii.newline content).map fun s => Printer.indentation depth ++ commentLine s

theorem newline_notMem_commentLine {s : Bytes} (h : Ascii.newline ∉ s) (depth : Nat) :
    Ascii.newline ∉ Printer.indentation depth ++ commentLine s := by
  have hindent : Ascii.newline ∉ Printer.indentation depth := fun hmem => by
    cases List.eq_of_mem_replicate hmem
  have hslashes : Ascii.newline ∉ text "//" := by decide
  rw [commentLine]
  split_ifs
  · simp [hindent, hslashes]
  · simp [hindent, hslashes, h, Ascii.newline, Ascii.blank]

theorem getLast?_commentLine (s : Bytes) (depth : Nat) :
    (Printer.indentation depth ++ commentLine s).getLast? = some Ascii.backslash ↔
      s.getLast? = some Ascii.backslash := by
  have hslashes : text "//" = [Ascii.slash, Ascii.slash] := by decide
  have hblank : (if s = [] then [] else Ascii.blank :: s).getLast? = some Ascii.backslash ↔
      s.getLast? = some Ascii.backslash := by
    split_ifs with hs
    · rw [hs]
    · exact getLast?_append_cons [] (by decide)
  rw [commentLine, hslashes, List.cons_append, List.cons_append, List.nil_append,
    getLast?_append_cons _ (by decide), ← hblank]
  exact getLast?_append_cons [] (by decide)

section

variable {depth : Nat} {content : Bytes}

theorem forall_commentLines {P : Bytes → Prop} :
    (∀ line ∈ commentLines depth content, P line) ↔
      ∀ s ∈ Text.splitOn Ascii.newline content, P (Printer.indentation depth ++ commentLine s) := by
  rw [commentLines, List.forall_mem_map]

theorem newline_notMem_commentLines :
    ∀ line ∈ commentLines depth content, Ascii.newline ∉ line :=
  forall_commentLines.mpr fun _ hs =>
    newline_notMem_commentLine (Text.notMem_of_mem_splitOn hs) depth

theorem isCommentLine_commentLines :
    ∀ line ∈ commentLines depth content, isCommentLine line = true :=
  forall_commentLines.mpr fun _ _ => isCommentLine_indented depth _

/-- A comment is left as it is exactly if no line of its content ends with a backslash. -/
theorem splice_comment_eq_iff :
    splice (unlines (commentLines depth content)) = unlines (commentLines depth content) ↔
      ∀ s ∈ Text.splitOn Ascii.newline content, s.getLast? ≠ some Ascii.backslash := by
  rw [splice_unlines_eq_iff newline_notMem_commentLines, forall_commentLines]
  simp only [ne_eq, getLast?_commentLine]

theorem getLast?_unlines_append {lines : List Bytes} {last : Bytes} :
    (unlines lines ++ last).getLast? = some Ascii.backslash ↔
      last.getLast? = some Ascii.backslash := by
  rcases List.eq_nil_or_concat lines with rfl | ⟨front, line, rfl⟩
  · rfl
  · rw [List.concat_eq_append, unlines_append, unlines_singleton, List.append_assoc,
      List.append_assoc, List.singleton_append, ← List.append_assoc]
    exact getLast?_append_cons _ (by decide)

/-- The line behind a comment stays a line of its own exactly if the content of the comment does
not end with a backslash. -/
theorem getLast?_splice_comment :
    (splice (unlines (commentLines depth content))).getLast? = some Ascii.newline ↔
      content.getLast? ≠ some Ascii.backslash := by
  obtain ⟨front, last, hsplit⟩ : ∃ front last,
      Text.splitOn Ascii.newline content = front ++ [last] := by
    rcases List.eq_nil_or_concat (Text.splitOn Ascii.newline content) with hnil | hconcat
    · exact absurd hnil (Text.splitOn_ne_nil _ _)
    · simpa using hconcat
  have hmem : last ∈ Text.splitOn Ascii.newline content := by simp [hsplit]
  have hlast : Ascii.newline ∉ last := Text.notMem_of_mem_splitOn hmem
  have hlong : 1 < (Printer.indentation depth ++ commentLine last).length := by
    have hslashes : (text "//").length = 2 := by decide
    rw [commentLine, List.length_append, List.length_append, hslashes]
    omega
  rw [commentLines, hsplit, List.map_append, List.map_singleton,
    getLast?_splice_unlines _ (newline_notMem_commentLine hlast depth) hlong,
    eq_unlines_append hsplit, ne_eq, ne_eq, getLast?_commentLine, getLast?_unlines_append]

end

-- ---------------------------------------------------------------------------
-- Pieces of a text
-- ---------------------------------------------------------------------------

/-- Some code, or all lines of one comment. -/
inductive Piece where
  | code (s : Bytes)
  | comment (depth : Nat) (content : Bytes)
  deriving DecidableEq, Repr

namespace Piece

def text : Piece → Bytes
  | code s => s
  | comment depth content => unlines (commentLines depth content)

def content? : Piece → Option Bytes
  | code _ => none
  | comment _ content => some content

def Whole (piece : Piece) : Prop := ∃ front, piece.text = front ++ [Ascii.newline]

theorem whole_comment (depth : Nat) (content : Bytes) : (comment depth content).Whole := by
  have hne : commentLines depth content ≠ [] := fun h =>
    Text.splitOn_ne_nil _ content (List.map_eq_nil_iff.mp h)
  rcases List.eq_nil_or_concat (commentLines depth content) with hnil | ⟨front, last, hconcat⟩
  · exact absurd hnil hne
  · refine ⟨unlines front ++ last, ?_⟩
    rw [text, hconcat, List.concat_eq_append, unlines_append, unlines_singleton,
      List.append_assoc]

theorem splice_flatMap_text {pieces : List Piece} (h : ∀ piece ∈ pieces, piece.Whole) :
    splice (pieces.flatMap text) = pieces.flatMap fun piece => splice piece.text := by
  induction pieces with
  | nil => rfl
  | cons piece pieces ih =>
    rw [List.forall_mem_cons] at h
    obtain ⟨front, hfront⟩ := h.1
    rw [List.flatMap_cons, List.flatMap_cons, ← ih h.2, hfront, List.append_assoc,
      List.singleton_append, splice_append]

end Piece

/-- The text can be cut into whole pieces, of which the comments have these contents. -/
def Pieced (s : Bytes) (contents : List Bytes) : Prop :=
  ∃ pieces : List Piece, s = pieces.flatMap Piece.text ∧
    pieces.filterMap Piece.content? = contents ∧ ∀ piece ∈ pieces, piece.Whole

theorem pieced_nil : Pieced [] [] := ⟨[], rfl, rfl, List.forall_mem_nil _⟩

theorem Pieced.append {s t : Bytes} {contents others : List Bytes} (hs : Pieced s contents)
    (ht : Pieced t others) : Pieced (s ++ t) (contents ++ others) := by
  obtain ⟨pieces, rfl, rfl, hwhole⟩ := hs
  obtain ⟨more, rfl, rfl, hmore⟩ := ht
  exact ⟨pieces ++ more, List.flatMap_append.symm, List.filterMap_append,
    List.forall_mem_append.mpr ⟨hwhole, hmore⟩⟩

theorem pieced_code (front : Bytes) : Pieced (front ++ [Ascii.newline]) [] := by
  refine ⟨[.code (front ++ [Ascii.newline])], ?_, rfl, ?_⟩
  · rw [List.flatMap_singleton]
    rfl
  · exact List.forall_mem_singleton.mpr ⟨front, rfl⟩

theorem pieced_comment (depth : Nat) (content : Bytes) :
    Pieced (unlines (commentLines depth content)) [content] := by
  refine ⟨[.comment depth content], ?_, rfl, ?_⟩
  · rw [List.flatMap_singleton]
    rfl
  · exact List.forall_mem_singleton.mpr (Piece.whole_comment depth content)

-- ---------------------------------------------------------------------------
-- Printing in pieces
-- ---------------------------------------------------------------------------

namespace Printer

structure Starts (p : Printer) : Prop where
  isOpen : p.Open
  midLine : p.midLine = false

/-- From the start of a line on, the step prints pieces whose comments have these contents. -/
structure Lays (f : Printer → Printer) (contents : List Bytes) : Prop where
  starts : ∀ {p : Printer}, p.Starts → (f p).Starts
  prints : ∀ {p : Printer}, p.Starts →
    ∃ s, (f p).sink.text = p.sink.text ++ s ∧ Pieced s contents

variable {f g : Printer → Printer} {contents others : List Bytes}

theorem id_lays : Lays id [] where
  starts hp := hp
  prints _ := ⟨[], (List.append_nil _).symm, pieced_nil⟩

theorem Lays.comp (hg : Lays g others) (hf : Lays f contents) :
    Lays (fun p => g (f p)) (contents ++ others) where
  starts hp := hg.starts (hf.starts hp)
  prints hp := by
    obtain ⟨s, hs, hpieced⟩ := hf.prints hp
    obtain ⟨t, ht, hmore⟩ := hg.prints (hf.starts hp)
    exact ⟨s ++ t, by rw [ht, hs, List.append_assoc], hpieced.append hmore⟩

theorem Lays.comp_code (hg : Lays g []) (hf : Lays f contents) :
    Lays (fun p => g (f p)) contents := by
  simpa using hg.comp hf

theorem Lays.moved (hf : Lays f contents) (before after : Nat → Nat) :
    Lays (fun p => let q := f { p with depth := before p.depth }
      { q with depth := after q.depth }) contents where
  starts {p} hp := by
    have hmoved : ({ p with depth := before p.depth } : Printer).Starts := ⟨hp.isOpen, hp.midLine⟩
    have hend := hf.starts hmoved
    exact ⟨hend.isOpen, hend.midLine⟩
  prints {p} hp := by
    have hmoved : ({ p with depth := before p.depth } : Printer).Starts := ⟨hp.isOpen, hp.midLine⟩
    exact hf.prints hmoved

theorem Lays.nested (hf : Lays f contents) : Lays (fun p => (f p.indent).dedent) contents :=
  hf.moved (· + 1) (· - 1)

theorem Steady.line_lays {low : Nat} (hg : Steady low g) (s : Bytes) :
    Lays (fun p => (g p).line s) [] where
  starts {p} hp := by
    have hend := (hg.isOpen hp.isOpen).atLineStart_line s
    exact ⟨hend.isOpen, hend.midLine⟩
  prints {p} hp := by
    let place : Printer := { depth := p.depth, midLine := p.midLine }
    have hplace : place.Open := ⟨rfl, rfl⟩
    have honto : (g p).line s = ((g place).line s).onto p.sink := by
      conv_lhs => rw [hp.isOpen.eq_onto]
      exact ((line_steady s).mono.comp hg).onto p.sink hplace
    obtain ⟨front, hfront⟩ := ((hg.isOpen hplace).atLineStart_line s).behind
    refine ⟨front ++ [Ascii.newline], ?_, pieced_code front⟩
    show ((g p).line s).sink.text = _
    rw [honto, text_onto, hfront]

theorem line_lays (s : Bytes) : Lays (·.line s) [] := Steady.line_lays id_steady s

theorem newline_lays : Lays newline [] where
  starts hp := ⟨newline_steady.isOpen hp.isOpen, rfl⟩
  prints hp := ⟨[Ascii.newline], hp.isOpen.text_newline, pieced_code []⟩

theorem label_lays (s : Bytes) : Lays (fun p => (p.dedent.line s).indent) [] :=
  (line_lays s).moved (· - 1) (· + 1)

theorem foldl_lays {α : Type} {step : Printer → α → Printer} (hstep : ∀ a, Lays (step · a) [])
    (as : List α) : Lays (as.foldl step ·) [] := by
  induction as with
  | nil => exact id_lays
  | cons a as ih => exact ih.comp (hstep a)

end Printer

namespace Node

open Printer

theorem text_foldl_commentLine {p : Printer} (hp : p.Starts) (pieces : List Bytes) :
    let shown := pieces.foldl (fun p s => p.line (commentLine s)) p
    shown.Starts ∧ shown.sink.text =
      p.sink.text ++ unlines (pieces.map fun s => indentation p.depth ++ commentLine s) := by
  induction pieces generalizing p with
  | nil => exact ⟨hp, (List.append_nil _).symm⟩
  | cons s pieces ih =>
    have hline : (p.line (commentLine s)).Starts := ⟨(line_steady _).isOpen hp.isOpen, rfl⟩
    obtain ⟨hend, htext⟩ := ih hline
    refine ⟨hend, htext.trans ?_⟩
    have hne : commentLine s ≠ [] := by
      rw [commentLine, show ClassHeader.text "//" = [Ascii.slash, Ascii.slash] by decide]
      exact List.cons_ne_nil _ _
    have hdepth : (p.line (commentLine s)).depth = p.depth :=
      (line_steady _).depth hp.isOpen (Nat.zero_le _)
    rw [hp.isOpen.text_line hp.midLine hne, hdepth, List.map_cons, unlines_cons]
    simp only [List.append_assoc, List.singleton_append]

theorem renderComment_lays (content : Bytes) : Lays (renderComment content) [content] := by
  have hrender : renderComment content = fun p =>
      (Text.splitOn Ascii.newline content).foldl (fun p s => p.line (commentLine s)) p := by
    funext p
    simp only [renderComment, commentLine_eq]
  rw [hrender]
  exact ⟨fun hp => (text_foldl_commentLine hp _).1,
    fun {p} hp => ⟨_, (text_foldl_commentLine hp _).2, pieced_comment p.depth content⟩⟩

-- ---------------------------------------------------------------------------
-- Comments of a tree
-- ---------------------------------------------------------------------------

mutual

def comments : Node → List Bytes
  | .file heading children => (if heading = [] then [] else [heading]) ++ commentsOf children
  | .scope _ children | .struct _ _ children | .access _ children | .block children
  | .group children | .statement children => commentsOf children
  | .comment content => [content]
  | .field _ _ (some init) _ => init.comments
  | .function _ _ _ _ isPure (some body) => if isPure then [] else commentsOf body
  | _ => []

def commentsOf : List Node → List Bytes
  | [] => []
  | node :: rest => node.comments ++ commentsOf rest

end

mutual

/-- The tree is made of whole lines, and comments stand on lines of their own. -/
def OnLines : Node → Prop
  | .file _ children | .scope _ children | .struct _ _ children | .access _ children
  | .block children | .group children => AllOnLines children
  | .statement parts => commentsOf parts = []
  | .field _ _ (some init) _ => init.comments = []
  | .function _ _ _ _ _ (some body) => AllOnLines body
  | .identifier _ | .literal _ | .typeName _ => False
  | _ => True

def AllOnLines : List Node → Prop
  | [] => True
  | node :: rest => node.OnLines ∧ AllOnLines rest

end

theorem commentsOf_eq_flatMap (nodes : List Node) : commentsOf nodes = nodes.flatMap comments := by
  induction nodes with
  | nil => simp [commentsOf]
  | cons node nodes ih => rw [commentsOf, ih, List.flatMap_cons]

theorem allOnLines_iff {nodes : List Node} : AllOnLines nodes ↔ ∀ node ∈ nodes, node.OnLines := by
  induction nodes with
  | nil => simp [AllOnLines]
  | cons node nodes ih => rw [AllOnLines, ih, List.forall_mem_cons]

mutual

/-- Each node prints its comments between its code, in whole lines. -/
theorem render_lays : (node : Node) → node.OnLines → Lays node.render node.comments
  | .file heading children, h => by
    simp only [OnLines] at h
    simp only [render, comments]
    refine (renderEach_lays newline_lays children h).comp ((line_lays _).comp_code ?_)
    split_ifs with hheading
    · exact id_lays
    · exact renderComment_lays heading
  | .scope path children, h => by
    simp only [OnLines] at h
    simp only [render, comments]
    split_ifs
    · exact renderEach_lays id_lays children h
    · exact (line_lays _).comp_code ((renderEach_lays id_lays children h).comp (line_lays _))
  | .struct name bases children, h => by
    simp only [OnLines] at h
    simp only [render, comments]
    have hfront := (renderBases_steady bases).comp
      (write_steady (ClassHeader.text "struct " ++ name))
    exact (line_lays _).comp_code
      ((renderEach_lays id_lays children h).nested.comp (hfront.line_lays _))
  | .access label children, h => by
    simp only [OnLines] at h
    simp only [render, comments]
    exact (renderEach_lays id_lays children h).comp (label_lays _)
  | .block children, h => by
    simp only [OnLines] at h
    simp only [render, comments]
    exact (renderEach_lays id_lays children h).nested
  | .group children, h => by
    simp only [OnLines] at h
    simp only [render, comments]
    exact renderEach_lays id_lays children h
  | .statement [], _ => by
    simp only [render, comments, commentsOf]
    exact line_lays _
  | .statement (part :: parts), h => by
    simp only [OnLines] at h
    simp only [render, comments, h]
    exact Steady.line_lays ((renderEach_steady (write_steady _).mono parts).comp
      (render_steady part)) _
  | .includeFile path system, _ => by
    simp only [render, comments]
    exact line_lays _
  | .forward name, _ => by
    simp only [render, comments]
    exact line_lays _
  | .comment content, _ => by
    simp only [render, comments]
    exact renderComment_lays content
  | .verbatim content, _ => by
    simp only [render, comments]
    exact foldl_lays line_lays _
  | .identifier _, h | .literal _, h | .typeName _, h => by
    simp only [OnLines] at h
  | .field type name none constexpr, _ => by
    simp only [render, comments]
    exact Steady.line_lays (renderField_steady type name constexpr) _
  | .field type name (some init) constexpr, h => by
    simp only [OnLines] at h
    simp only [render, comments, h]
    exact Steady.line_lays ((render_steady init).comp
      ((write_steady _).comp (renderField_steady type name constexpr)).mono) _
  | .function result name params isVirtual isPure none, _ => by
    simp only [render, comments]
    exact Steady.line_lays (renderSignature_steady result name params _) _
  | .function result name params isVirtual isPure (some body), h => by
    simp only [OnLines] at h
    simp only [render, comments]
    have hsignature := renderSignature_steady result name params (isVirtual || isPure)
    split_ifs
    · exact hsignature.line_lays _
    · exact (line_lays _).comp_code
        ((renderEach_lays id_lays body h).nested.comp (hsignature.line_lays _))

theorem renderEach_lays {before : Printer → Printer} (hbefore : Lays before []) :
    (nodes : List Node) → AllOnLines nodes → Lays (renderEach before nodes) (commentsOf nodes)
  | [], _ => by
    simp only [renderEach, commentsOf]
    exact id_lays
  | node :: nodes, h => by
    simp only [AllOnLines] at h
    simp only [renderEach, commentsOf]
    exact (renderEach_lays hbefore nodes h.2).comp ((render_lays node h.1).comp hbefore)

end

theorem text_comment (content : Bytes) :
    (Node.comment content).text = (Piece.comment 0 content).text := by
  have hstart : Starts { sink := { capacity := .unlimited } } := ⟨⟨rfl, rfl⟩, rfl⟩
  have htext := (text_foldl_commentLine hstart (Text.splitOn Ascii.newline content)).2
  simp only [text, printInto, render, renderComment, commentLine_eq]
  exact htext

/-- The text of a tree is code and its comments, all of them in whole lines. -/
theorem text_pieced {node : Node} (h : node.OnLines) : Pieced node.text node.comments := by
  have hstart : Starts { sink := { capacity := .unlimited } } := ⟨⟨rfl, rfl⟩, rfl⟩
  obtain ⟨s, hs, hpieced⟩ := (render_lays node h).prints hstart
  have htext : node.text = s := hs
  rw [htext]
  exact hpieced

end Node
end ClassHeader.Cpp
