import ClassHeader.Cpp.Node
import Mathlib

/-!
# Rendering as a script

Rendering a tree is a fixed sequence of commands to the printer, which does not depend
on the printer or on what its receiver says. What each command keeps, rendering keeps.
-/

namespace ClassHeader.Cpp

namespace Printer

inductive Command where
  | write (s : Bytes)
  | newline
  | indent
  | dedent
  deriving DecidableEq, Repr

def perform (p : Printer) : Command → Printer
  | .write s => p.write s
  | .newline => p.newline
  | .indent => p.indent
  | .dedent => p.dedent

def follow (p : Printer) (script : List Command) : Printer := script.foldl perform p

/-- Some commands do what `f` does, whatever printer they are given. -/
def Scripted (f : Printer → Printer) : Prop := ∃ script, ∀ p, f p = p.follow script

variable {f g : Printer → Printer}

theorem id_scripted : Scripted id := ⟨[], fun _ => rfl⟩

theorem write_scripted (s : Bytes) : Scripted (·.write s) := ⟨[.write s], fun _ => rfl⟩

theorem newline_scripted : Scripted newline := ⟨[.newline], fun _ => rfl⟩

theorem indent_scripted : Scripted indent := ⟨[.indent], fun _ => rfl⟩

theorem dedent_scripted : Scripted dedent := ⟨[.dedent], fun _ => rfl⟩

theorem Scripted.comp (hg : Scripted g) (hf : Scripted f) : Scripted fun p => g (f p) := by
  obtain ⟨later, hlater⟩ := hg
  obtain ⟨first, hfirst⟩ := hf
  refine ⟨first ++ later, fun p => ?_⟩
  dsimp only
  rw [hlater, hfirst, follow, follow, follow, List.foldl_append]

theorem ite_scripted {c : Prop} [Decidable c] (hf : Scripted f) (hg : Scripted g) :
    Scripted fun p => if c then f p else g p := by
  split_ifs
  · exact hf
  · exact hg

theorem line_scripted (s : Bytes) : Scripted (·.line s) := newline_scripted.comp (write_scripted s)

theorem foldl_scripted {α : Type} {step : Printer → α → Printer} (hstep : ∀ a, Scripted (step · a))
    (as : List α) : Scripted (as.foldl step ·) := by
  induction as with
  | nil => exact id_scripted
  | cons a as ih => exact ih.comp (hstep a)

theorem writeAll_scripted (texts : List Bytes) : Scripted (·.writeAll texts) :=
  foldl_scripted write_scripted texts

/-- What every command keeps, a script keeps. -/
theorem Scripted.induct (hf : Scripted f) {R : Printer → Printer → Prop}
    (hstep : ∀ command p q, R p q → R (p.perform command) (q.perform command)) {p q : Printer}
    (h : R p q) : R (f p) (f q) := by
  obtain ⟨script, hscript⟩ := hf
  rw [hscript, hscript]
  clear hscript
  induction script generalizing p q with
  | nil => exact h
  | cons command script ih => exact ih (hstep command p q h)

end Printer

namespace Node

open Printer

theorem renderComment_scripted (content : Bytes) : Scripted (renderComment content) :=
  foldl_scripted (fun _ => line_scripted _) _

theorem renderVerbatim_scripted (content : Bytes) : Scripted (renderVerbatim content) :=
  foldl_scripted line_scripted _

theorem renderBases_scripted (bases : List Bytes) : Scripted (renderBases · bases) := by
  cases bases with
  | nil => exact id_scripted
  | cons base bases =>
    exact (foldl_scripted (fun _ => writeAll_scripted _) bases).comp (writeAll_scripted _)

theorem renderParams_scripted (params : List Param) : Scripted (renderParams · params) := by
  cases params with
  | nil => exact id_scripted
  | cons param params =>
    exact (foldl_scripted (fun _ => writeAll_scripted _) params).comp (write_scripted _)

theorem renderField_scripted (type : TypeRef) (name : Bytes) (constexpr : Bool) :
    Scripted (renderField type name constexpr) := by
  unfold renderField
  exact (write_scripted _).comp ((ite_scripted (write_scripted _) id_scripted).comp
    (ite_scripted (write_scripted _) id_scripted))

theorem renderSignature_scripted (result : TypeRef) (name : Bytes) (params : List Param)
    (isVirtual : Bool) : Scripted (renderSignature result name params isVirtual) := by
  unfold renderSignature
  exact (write_scripted _).comp ((renderParams_scripted params).comp ((write_scripted _).comp
    (ite_scripted (write_scripted _) id_scripted)))

mutual

theorem render_scripted : (node : Node) → Scripted node.render
  | .file heading children => by
    simp only [render]
    exact (renderEach_scripted newline_scripted children).comp ((line_scripted _).comp
      (ite_scripted id_scripted (renderComment_scripted heading)))
  | .scope path children => by
    simp only [render]
    refine ite_scripted (renderEach_scripted id_scripted children) ?_
    exact (line_scripted _).comp ((renderEach_scripted id_scripted children).comp (line_scripted _))
  | .struct name bases children => by
    simp only [render]
    exact (line_scripted _).comp (dedent_scripted.comp
      ((renderEach_scripted id_scripted children).comp (indent_scripted.comp
        ((line_scripted _).comp ((renderBases_scripted bases).comp (write_scripted _))))))
  | .access label children => by
    simp only [render]
    exact (renderEach_scripted id_scripted children).comp
      (indent_scripted.comp ((line_scripted _).comp dedent_scripted))
  | .block children => by
    simp only [render]
    exact dedent_scripted.comp ((renderEach_scripted id_scripted children).comp indent_scripted)
  | .group children => by
    simp only [render]
    exact renderEach_scripted id_scripted children
  | .statement [] => by
    simp only [render]
    exact line_scripted _
  | .statement (part :: parts) => by
    simp only [render]
    exact (line_scripted _).comp
      ((renderEach_scripted (write_scripted _) parts).comp (render_scripted part))
  | .includeFile path system => by
    simp only [render]
    exact line_scripted _
  | .forward name => by
    simp only [render]
    exact line_scripted _
  | .comment content => by
    simp only [render]
    exact renderComment_scripted content
  | .verbatim content => by
    simp only [render]
    exact renderVerbatim_scripted content
  | .identifier name => by
    simp only [render]
    exact write_scripted _
  | .literal written => by
    simp only [render]
    exact write_scripted _
  | .typeName type => by
    simp only [render]
    exact write_scripted _
  | .field type name none constexpr => by
    simp only [render]
    exact (line_scripted _).comp (renderField_scripted type name constexpr)
  | .field type name (some init) constexpr => by
    simp only [render]
    exact (line_scripted _).comp ((render_scripted init).comp
      ((write_scripted _).comp (renderField_scripted type name constexpr)))
  | .function result name params isVirtual isPure none => by
    simp only [render]
    exact (line_scripted _).comp (renderSignature_scripted result name params _)
  | .function result name params isVirtual isPure (some body) => by
    simp only [render]
    have hsignature := renderSignature_scripted result name params (isVirtual || isPure)
    refine ite_scripted ((line_scripted _).comp hsignature) ?_
    exact (line_scripted _).comp (dedent_scripted.comp
      ((renderEach_scripted id_scripted body).comp
        (indent_scripted.comp ((line_scripted _).comp hsignature))))

theorem renderEach_scripted {before : Printer → Printer} (hbefore : Scripted before) :
    (nodes : List Node) → Scripted (renderEach before nodes)
  | [] => by
    simp only [renderEach]
    exact id_scripted
  | node :: nodes => by
    simp only [renderEach]
    exact (renderEach_scripted hbefore nodes).comp ((render_scripted node).comp hbefore)

end

end Node
end ClassHeader.Cpp
