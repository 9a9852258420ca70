import ClassHeader.Proofs.Cpp.Render
import ClassHeader.Proofs.Cpp.Script

/-!
# Receivers that refuse

A receiver that takes some number of pieces and refuses the next one is handed the
first pieces of what it would be handed without a limit and the one that it refuses,
and nothing behind it; what it reports is the result. It makes no difference whether
rendering goes on behind a refusal or the nodes give up one after another.
-/

namespace ClassHeader.Cpp

def Sink.pieces (s : Sink) : List Bytes := s.taken.reverse

namespace Printer

variable {k : Nat} {refusal : Error} {p q : Printer}

-- ---------------------------------------------------------------------------
-- Behind a refusal
-- ---------------------------------------------------------------------------

/-- Nothing more was handed on, and the result is still the same. -/
structure Silent (p q : Printer) : Prop where
  refused : p.error.isSome = true
  sink : q.sink = p.sink
  error : q.error = p.error

theorem Silent.perform (h : Silent p q) (command : Command) : Silent p (q.perform command) := by
  have hq : q.error.isSome = true := by rw [h.error, h.refused]
  have hemit : ∀ piece, q.emit piece = q := fun piece => if_pos hq
  cases command with
  | write s =>
    have hwrite : q.write s = q := if_pos (.inl hq)
    rwa [Printer.perform, hwrite]
  | newline => exact ⟨h.refused, by rw [Printer.perform, newline, hemit, h.sink],
      by rw [Printer.perform, newline, hemit, h.error]⟩
  | indent => exact ⟨h.refused, h.sink, h.error⟩
  | dedent => exact ⟨h.refused, h.sink, h.error⟩

theorem Scripted.silent {f : Printer → Printer} (hf : Scripted f) (h : p.error.isSome = true) :
    Silent p (f p) :=
  hf.induct (R := fun _ q => Silent p q) (fun command _ _ hq => hq.perform command) (p := p)
    ⟨h, rfl, rfl⟩

-- ---------------------------------------------------------------------------
-- Up to a refusal
-- ---------------------------------------------------------------------------

/-- `p` is `q` with a receiver that takes `k` pieces, as far as this one lets it come. -/
structure Limited (k : Nat) (refusal : Error) (p q : Printer) : Prop where
  isOpen : q.Open
  capacity : p.sink.capacity = .pieces k
  refusal_eq : p.sink.refusal = refusal
  pieces : p.sink.pieces = q.sink.pieces.take k
  refused : p.sink.refused = q.sink.pieces[k]?.toList
  error : p.error = if k < q.sink.pieces.length then some refusal else none
  /-- Behind a refusal the printer may stand anywhere. -/
  place : p.error = none → p.depth = q.depth ∧ p.midLine = q.midLine

theorem Limited.emit (h : Limited k refusal p q) (piece : Bytes) :
    Limited k refusal (p.emit piece) (q.emit piece) := by
  have hpieces : (q.sink.take piece).pieces = q.sink.pieces ++ [piece] := List.reverse_cons
  have hlength : p.sink.taken.length = min k q.sink.pieces.length := by
    rw [← List.length_reverse, ← List.length_take, ← h.pieces]
    rfl
  rw [h.isOpen.emit, Printer.emit]
  by_cases hlt : k < q.sink.pieces.length
  · -- A piece was refused before.
    have herror : p.error.isSome = true := by rw [h.error, if_pos hlt]; rfl
    rw [if_pos herror]
    refine ⟨h.isOpen, h.capacity, h.refusal_eq, ?_, ?_, ?_, fun hnone => ?_⟩
    · rw [hpieces, List.take_append_of_le_length hlt.le, h.pieces]
    · rw [hpieces, List.getElem?_append_left hlt, h.refused]
    · have hlonger : k < (q.sink.pieces ++ [piece]).length := by
        rw [List.length_append]
        omega
      rw [hpieces, if_pos hlonger, h.error, if_pos hlt]
    · rw [hnone] at herror
      cases herror
  · have hnone : p.error = none := by rw [h.error, if_neg hlt]
    have hsome : ¬ p.error.isSome = true := by simp [hnone]
    have hbefore : p.sink.refused = [] := by
      rw [h.refused, List.getElem?_eq_none (by omega)]
      rfl
    have hwhole : p.sink.pieces = q.sink.pieces := by
      rw [h.pieces, List.take_of_length_le (by omega)]
    rw [if_neg hsome]
    by_cases hroom : q.sink.pieces.length < k
    · have haccepts : p.sink.accepts piece = true := by
        simp only [Sink.accepts, h.capacity, decide_eq_true_eq]
        omega
      have hshort : (q.sink.pieces ++ [piece]).length ≤ k := by
        rw [List.length_append, List.length_singleton]
        omega
      have htaken : (p.sink.take piece).pieces = q.sink.pieces ++ [piece] := by
        rw [← hwhole]
        exact List.reverse_cons
      rw [if_pos haccepts]
      refine ⟨h.isOpen, h.capacity, h.refusal_eq, ?_, ?_, ?_, fun _ => h.place hnone⟩
      · rw [hpieces, List.take_of_length_le hshort, htaken]
      · rw [hpieces, List.getElem?_eq_none hshort]
        exact hbefore
      · rw [hpieces, if_neg (Nat.not_lt.mpr hshort), hnone]
    · have hfull : q.sink.pieces.length = k := by omega
      have hrefuses : ¬ p.sink.accepts piece = true := by
        simp only [Sink.accepts, h.capacity, decide_eq_true_eq]
        omega
      rw [if_neg hrefuses]
      refine ⟨h.isOpen, h.capacity, h.refusal_eq, ?_, ?_, ?_, fun hnew => by cases hnew⟩
      · rw [hpieces, ← hfull, List.take_left]
        exact hwhole
      · rw [hpieces, ← hfull, List.getElem?_concat_length]
        exact congrArg (piece :: ·) hbefore
      · have hlonger : k < (q.sink.pieces ++ [piece]).length := by
          rw [List.length_append, List.length_singleton]
          omega
        rw [hpieces, if_pos hlonger, h.refusal_eq]

theorem Limited.moved (h : Limited k refusal p q) {depth depth' : Nat} {midLine midLine' : Bool}
    (hplace : p.error = none → depth = depth' ∧ midLine = midLine') :
    Limited k refusal { p with depth, midLine }
      { q with depth := depth', midLine := midLine' } :=
  ⟨h.isOpen, h.capacity, h.refusal_eq, h.pieces, h.refused, h.error, hplace⟩

def startLine (p : Printer) : Printer :=
  if p.midLine then p
  else if 0 < p.depth then { p.emit (indentation p.depth) with midLine := true }
  else { p with midLine := true }

theorem Limited.startLine (h : Limited k refusal p q) (hnone : p.error = none) :
    Limited k refusal p.startLine q.startLine := by
  obtain ⟨hdepth, hmid⟩ := h.place hnone
  unfold Printer.startLine
  rw [hdepth, hmid]
  split_ifs
  · exact h
  · have hemit := h.emit (indentation q.depth)
    exact hemit.moved fun hnew => ⟨(hemit.place hnew).1, rfl⟩
  · exact h.moved fun _ => ⟨rfl, rfl⟩

theorem Limited.emit_right (h : Limited k refusal p q) (herror : p.error.isSome = true)
    (piece : Bytes) : Limited k refusal p (q.emit piece) := by
  have hemit := h.emit piece
  rwa [Printer.emit, if_pos herror] at hemit

theorem Limited.startLine_right (h : Limited k refusal p q) (herror : p.error.isSome = true) :
    Limited k refusal p q.startLine := by
  have hvacuous : ∀ {P : Prop}, p.error = none → P := fun hnone => by
    rw [hnone] at herror
    cases herror
  unfold Printer.startLine
  split_ifs
  · exact h
  · exact (h.emit_right herror _).moved hvacuous
  · exact h.moved hvacuous

theorem Limited.write (h : Limited k refusal p q) (s : Bytes) :
    Limited k refusal (p.write s) (q.write s) := by
  by_cases hs : s = []
  · have hp : p.write s = p := if_pos (.inr hs)
    have hq : q.write s = q := if_pos (.inr hs)
    rwa [hp, hq]
  · have hq : q.write s = q.startLine.emit s := if_neg (by simp [h.isOpen.2, hs])
    rw [hq]
    cases herror : p.error with
    | some e =>
      have hsome : p.error.isSome = true := by rw [herror]; rfl
      have hp : p.write s = p := if_pos (.inl hsome)
      rw [hp]
      exact (h.startLine_right hsome).emit_right hsome s
    | none =>
      have hp : p.write s = p.startLine.emit s := if_neg (by simp [herror, hs])
      rw [hp]
      exact (h.startLine herror).emit s

theorem Limited.perform (h : Limited k refusal p q) (command : Command) :
    Limited k refusal (p.perform command) (q.perform command) := by
  cases command with
  | write s => exact h.write s
  | newline =>
    have hemit := h.emit [Ascii.newline]
    exact hemit.moved fun hnone => ⟨(hemit.place hnone).1, rfl⟩
  | indent =>
    exact h.moved fun hnone => ⟨congrArg (· + 1) (h.place hnone).1, (h.place hnone).2⟩
  | dedent =>
    exact h.moved fun hnone => ⟨congrArg (· - 1) (h.place hnone).1, (h.place hnone).2⟩

theorem limited_start (k : Nat) (refusal : Error) :
    Limited k refusal { sink := { capacity := .pieces k, refusal } } {} :=
  ⟨⟨rfl, rfl⟩, rfl, rfl, List.take_nil.symm, rfl, rfl, fun _ => ⟨rfl, rfl⟩⟩

/-- The outcome of `q` is that of `p`, which may have gone on behind a refusal. -/
structure SameOutcome (p q : Printer) : Prop where
  sink : q.sink = p.sink
  error : q.error = p.error
  eq_of_accepted : p.error = none → q = p

theorem SameOutcome.refl (p : Printer) : SameOutcome p p := ⟨rfl, rfl, fun _ => rfl⟩

theorem SameOutcome.of_silent {r : Printer} (h : SameOutcome p q) (hr : Silent p r) :
    SameOutcome r q where
  sink := h.sink.trans hr.sink.symm
  error := h.error.trans hr.error.symm
  eq_of_accepted hnone := by
    have hsome := hr.refused
    rw [← hr.error, hnone] at hsome
    cases hsome

def unlessRefused (p : Printer) (next : Printer → Printer) : Printer :=
  if p.error.isSome then p else next p

theorem SameOutcome.unlessRefused (h : SameOutcome p q) {f g : Printer → Printer}
    (hf : Scripted f) (hfg : ∀ p, SameOutcome (f p) (g p)) :
    SameOutcome (f p) (q.unlessRefused g) := by
  unfold Printer.unlessRefused
  cases herror : p.error with
  | none =>
    rw [h.error, herror, h.eq_of_accepted herror]
    exact hfg p
  | some e =>
    have hsome : p.error.isSome = true := by rw [herror]; rfl
    rw [h.error, if_pos hsome]
    exact h.of_silent (hf.silent hsome)

theorem SameOutcome.step (h : SameOutcome p q) {f : Printer → Printer} (hf : Scripted f) :
    SameOutcome (f p) (f q) := by
  cases herror : p.error with
  | none =>
    rw [h.eq_of_accepted herror]
    exact .refl _
  | some e =>
    have hp : Silent p (f p) := hf.silent (by rw [herror]; rfl)
    have hq : Silent q (f q) := hf.silent (by rw [h.error, herror]; rfl)
    refine ⟨?_, ?_, fun hnone => ?_⟩
    · rw [hq.sink, hp.sink, h.sink]
    · rw [hq.error, hp.error, h.error]
    · rw [hp.error, herror] at hnone
      cases hnone

end Printer

namespace Node

open Printer

-- ---------------------------------------------------------------------------
-- Giving up at a refusal
-- ---------------------------------------------------------------------------

mutual

/-- Rendering in which a node that has parts of its own gives up as soon as one of them reports a
refusal. -/
def renderStopping : Node → Printer → Printer
  | .file heading children, p =>
    (if heading = [] then p else renderComment heading p).unlessRefused fun p =>
      renderEachStopping Printer.newline children (p.line (ClassHeader.text "#pragma once"))
  | .scope path children, p =>
    if path = [] then renderEachStopping id children p
    else
      (renderEachStopping id children
        (p.line (ClassHeader.text "namespace " ++ scopeName path ++ ClassHeader.text " \x7b"))
        ).unlessRefused
        (·.line (ClassHeader.text "\x7d // namespace " ++ scopeName path))
  | .struct name bases children, p =>
    (renderEachStopping id children
      ((renderBases (p.write (ClassHeader.text "struct " ++ name)) bases).line
        (ClassHeader.text " \x7b")).indent).unlessRefused
      fun p => p.dedent.line (ClassHeader.text "\x7d;")
  | .access label children, p =>
    renderEachStopping id children (p.dedent.line (label ++ ClassHeader.text ":")).indent
  | .block children, p => (renderEachStopping id children p.indent).dedent
  | .group children, p => renderEachStopping id children p
  | .statement [], p => p.line (ClassHeader.text ";")
  | .statement (part :: parts), p =>
    ((part.renderStopping p).unlessRefused
      (renderEachStopping (·.write (ClassHeader.text " ")) parts)).unlessRefused
      (·.line (ClassHeader.text ";"))
  | .field type name (some init) constexpr, p =>
    (init.renderStopping
      ((renderField type name constexpr p).write (ClassHeader.text " = "))).unlessRefused
      (·.line (ClassHeader.text ";"))
  | .function result name params isVirtual isPure (some body), p =>
    let p := renderSignature result name params (isVirtual || isPure) p
    if isPure then p.line (ClassHeader.text " = 0;")
    else ((renderEachStopping id body (p.line (ClassHeader.text " \x7b")).indent).dedent
      ).unlessRefused (·.line (ClassHeader.text "\x7d"))
  | leaf, p => leaf.render p

def renderEachStopping (before : Printer → Printer) : List Node → Printer → Printer
  | [], p => p
  | node :: rest, p =>
    (node.renderStopping (before p)).unlessRefused (renderEachStopping before rest)

end

mutual

theorem renderStopping_same : (node : Node) → (p : Printer) →
    SameOutcome (node.render p) (node.renderStopping p)
  | .file heading children, p => by
    simp only [render, renderStopping]
    exact (SameOutcome.refl _).unlessRefused
      ((renderEach_scripted newline_scripted children).comp (line_scripted _))
      fun p => renderEachStopping_same newline_scripted children _
  | .scope path children, p => by
    simp only [render, renderStopping]
    split_ifs
    · exact renderEachStopping_same id_scripted children p
    · exact (renderEachStopping_same id_scripted children _).unlessRefused (line_scripted _)
        fun p => .refl _
  | .struct name bases children, p => by
    simp only [render, renderStopping]
    exact (renderEachStopping_same id_scripted children _).unlessRefused
      ((line_scripted _).comp dedent_scripted) fun p => .refl _
  | .access label children, p => by
    simp only [render, renderStopping]
    exact renderEachStopping_same id_scripted children _
  | .block children, p => by
    simp only [render, renderStopping]
    exact (renderEachStopping_same id_scripted children _).step dedent_scripted
  | .group children, p => by
    simp only [render, renderStopping]
    exact renderEachStopping_same id_scripted children p
  | .statement [], p => by
    simp only [render, renderStopping]
    exact .refl _
  | .statement (part :: parts), p => by
    simp only [render, renderStopping]
    have hblank := write_scripted (ClassHeader.text " ")
    have hparts := (renderStopping_same part p).unlessRefused (renderEach_scripted hblank parts)
      fun p => renderEachStopping_same hblank parts p
    exact hparts.unlessRefused (line_scripted _) fun p => .refl _
  | .field type name (some init) constexpr, p => by
    simp only [render, renderStopping]
    exact (renderStopping_same init _).unlessRefused (line_scripted _) fun p => .refl _
  | .function result name params isVirtual isPure (some body), p => by
    simp only [render, renderStopping]
    split_ifs
    · exact .refl _
    · exact ((renderEachStopping_same id_scripted body _).step dedent_scripted).unlessRefused
        (line_scripted _) fun p => .refl _
  | .includeFile _ _, p | .forward _, p | .comment _, p | .verbatim _, p | .identifier _, p
  | .literal _, p | .typeName _, p | .field _ _ none _, p | .function _ _ _ _ _ none, p => by
    simp only [renderStopping]
    exact .refl _

theorem renderEachStopping_same {before : Printer → Printer} (hbefore : Scripted before) :
    (nodes : List Node) → (p : Printer) →
      SameOutcome (renderEach before nodes p) (renderEachStopping before nodes p)
  | [], p => by
    simp only [renderEach, renderEachStopping]
    exact .refl _
  | node :: nodes, p => by
    simp only [renderEach, renderEachStopping]
    exact (renderStopping_same node _).unlessRefused (renderEach_scripted hbefore nodes)
      fun p => renderEachStopping_same hbefore nodes p

end

/-- A receiver of `k` pieces against one without a limit. -/
theorem render_refused (node : Node) (k : Nat) (refusal : Error) :
    let whole := node.printInto .unlimited
    let part := node.render { sink := { capacity := .pieces k, refusal } }
    let given := node.renderStopping { sink := { capacity := .pieces k, refusal } }
    whole.result = .ok () ∧
    part.sink.pieces = whole.sink.pieces.take k ∧
    part.sink.refused = whole.sink.pieces[k]?.toList ∧
    part.result = (if k < whole.sink.pieces.length then .error refusal else .ok ()) ∧
    given.sink = part.sink ∧ given.result = part.result := by
  have h : Limited k refusal (node.render { sink := { capacity := .pieces k, refusal } })
      (node.printInto .unlimited) :=
    (render_scripted node).induct (fun command _ _ hpq => hpq.perform command)
      (limited_start k refusal)
  have hsame := renderStopping_same node { sink := { capacity := .pieces k, refusal } }
  refine ⟨?_, h.pieces, h.refused, ?_, hsame.sink, ?_⟩
  · rw [Printer.result, h.isOpen.2]
    rfl
  · rw [Printer.result, h.error]
    split_ifs <;> rfl
  · rw [Printer.result, Printer.result, hsame.error]

end Node
end ClassHeader.Cpp
