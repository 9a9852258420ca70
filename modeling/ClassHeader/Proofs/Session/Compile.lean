import ClassHeader.Proofs.Cpp.Render
import ClassHeader.Proofs.Graph.Bases
import ClassHeader.Proofs.Graph.Order
import ClassHeader.Proofs.Session.Cache

/-!
# Compiled headers

A compiled header defines each class behind its superclass and its interfaces,
whatever was asked of the session before.
-/

namespace ClassHeader.Session

variable {σ : Type} {options : SessionOptions} {s : Session}

/-- What a successful compilation went through. -/
structure Compiled (options : SessionOptions) (main : Bytes) (later : Session)
    (compilation : Compilation) (classes : List ResolvedClass) (node : Cpp.Node) : Prop where
  progress : Collect.Progress later.remembered options.policy main compilation.graph.nodes
    ⟨compilation.graph, compilation.graph.nodes, []⟩
  order : compilation.graph.topologicalOrder = .ok compilation.order
  resolved : List.Forall₂ (fun name r => ∃ c, later.classes.lookup name = some c ∧
    Resolver.resolve ⟨options.ignore⟩ c = .ok r) compilation.order classes
  header : Cpp.header ⟨options.comment, options.disassemble⟩ compilation.order classes = .ok node
  source : compilation.source = node.text

theorem compile_keeps (provider : Provider (StateM σ)) (main : Bytes)
    (hs : s.Consistent options.ignore) :
    Keeps options.ignore (compile options provider main) s fun compilation later =>
      ∃ classes node, Compiled options main later compilation classes node := by
  unfold compile
  refine Keeps.bind (collect_keeps options provider main hs) fun graph collected hs _ hgraph => ?_
  refine Keeps.bind (Keeps.ofExcept hs _) ?_
  rintro order _ - - ⟨horder, rfl⟩
  refine Keeps.bind (Keeps.mapM (fun name _ => resolve_keeps options provider name) ?_ order hs) ?_
  · rintro name r _ _ hextends ⟨c, hc, hr⟩
    exact ⟨c, hextends _ _ hc, hr⟩
  intro classes later hs hextends hclasses
  refine Keeps.bind (Keeps.ofExcept hs _) ?_
  rintro node _ - - ⟨hheader, rfl⟩
  refine Keeps.bind (Keeps.ofExcept hs _) ?_
  rintro _ _ - - ⟨-, rfl⟩
  have hcompiled : Compiled options main later ⟨graph, order, node.text⟩ classes node :=
    ⟨hgraph later hextends, horder, hclasses, hheader, rfl⟩
  dsimp only
  split_ifs
  · refine Keeps.bind (Keeps.ofExcept hs _) ?_
    rintro _ _ - - ⟨-, rfl⟩
    exact Keeps.pure hs ⟨classes, node, hcompiled⟩
  · exact Keeps.pure hs ⟨classes, node, hcompiled⟩

inductive Request where
  | load (name : Bytes)
  | resolve (name : Bytes)
  | collect (main : Bytes)
  | compile (main : Bytes)

def Request.serve (options : SessionOptions) (provider : Provider (StateM σ)) :
    Request → SessionM (StateM σ) Unit
  | .load name => do
    let _ ← Session.load provider name
  | .resolve name => do
    let _ ← Session.resolve options provider name
  | .collect main => do
    let _ ← Session.collect options provider main
  | .compile main => do
    let _ ← Session.compile options provider main

/-- Sessions that some requests led to, whether they were granted or not. -/
inductive Reached (options : SessionOptions) (provider : Provider (StateM σ)) : Session → Prop
  | fresh : Reached options provider {}
  | serve {s later : Session} {world world' : σ} {result : Result Unit} (request : Request)
    (h : Reached options provider s)
    (hrun : ((request.serve options provider).run.run s).run world = ((result, later), world')) :
    Reached options provider later

theorem serve_keeps (provider : Provider (StateM σ)) (request : Request)
    (hs : s.Consistent options.ignore) :
    Keeps options.ignore (request.serve options provider) s fun _ _ => True := by
  cases request with
  | load name =>
    exact Keeps.bind (load_keeps provider name hs) fun _ _ hs _ _ => Keeps.pure hs trivial
  | resolve name =>
    exact Keeps.bind (resolve_keeps options provider name hs) fun _ _ hs _ _ =>
      Keeps.pure hs trivial
  | collect main =>
    exact Keeps.bind (collect_keeps options provider main hs) fun _ _ hs _ _ =>
      Keeps.pure hs trivial
  | compile main =>
    exact Keeps.bind (compile_keeps provider main hs) fun _ _ hs _ _ => Keeps.pure hs trivial

theorem Reached.consistent {provider : Provider (StateM σ)} (h : Reached options provider s) :
    s.Consistent options.ignore := by
  induction h with
  | fresh => exact consistent_fresh _
  | serve request _ hrun ih => exact (serve_keeps _ request ih _ _ _ _ hrun).1

theorem Compiled.bases_first {main : Bytes} {later : Session} {compilation : Compilation}
    {classes : List ResolvedClass} {node : Cpp.Node}
    (h : Compiled options main later compilation classes node)
    (hlater : later.Consistent options.ignore) {name : Bytes} (hname : name ∈ compilation.order) :
    ∃ c, later.classes.lookup name = some c ∧ c.name = .ok name ∧
      ∀ base, c.HasBase base → base ≠ name → base.head? ≠ some Ascii.openBracket →
        base ∈ compilation.order ∧
          compilation.order.idxOf base < compilation.order.idxOf name := by
  have hgraph := h.progress.built.wellFormed
  obtain ⟨hperm, hfirst⟩ := Graph.topologicalOrder_ok hgraph h.order
  obtain ⟨r, -, c, hc, hr⟩ := Result.exists_of_forall₂ h.resolved hname
  refine ⟨c, hc, hlater.declared hc, fun base hbase hne harray => ?_⟩
  -- The order is one of the graph, so what it needs is an edge of the graph.
  have hedge : compilation.graph.HardEdge name base :=
    h.progress.hardEdge (hperm.mem_iff.mp hname) (remembered_of_lookup hc) (hlater.declared hc)
      hbase hne harray
  exact ⟨hperm.mem_iff.mpr (hgraph.target_mem _ hedge), hfirst name base hedge⟩

theorem name_of_resolve {resolver : Resolver} {c : ClassFile} {r : ResolvedClass}
    (h : resolver.resolve c = .ok r) : c.name = .ok r.name := by
  simp only [Resolver.resolve, Resolver.contents, Result.bind_ok_iff, Result.mapError_ok_iff,
    Result.pure_ok_iff] at h
  obtain ⟨name, hname, _, _, _, _, _, _, _, _, _, _, rfl⟩ := h
  exact hname

def DefinesInOrder (options : SessionOptions) (later : Session) (compilation : Compilation) :
    Prop :=
  ∃ classes heading declarations definitions,
    List.Forall₂ (fun name r => r.name = name ∧ ∃ c, later.classes.lookup name = some c ∧
      Resolver.resolve ⟨options.ignore⟩ c = .ok r) compilation.order classes ∧
    Cpp.Header.declarations (Cpp.Header.declaredNames compilation.order classes) =
      .ok declarations ∧
    List.Forall₂ (fun r definition =>
      Cpp.Header.definition ⟨options.comment, options.disassemble⟩ r = .ok definition)
      classes definitions ∧
    compilation.source =
      (Cpp.Node.file heading (Cpp.Header.opening ++ declarations)).text ++
        definitions.flatMap fun definition => Ascii.newline :: definition.text

theorem Compiled.definesInOrder {main : Bytes} {later : Session} {compilation : Compilation}
    {classes : List ResolvedClass} {node : Cpp.Node}
    (h : Compiled options main later compilation classes node)
    (hlater : later.Consistent options.ignore) : DefinesInOrder options later compilation := by
  obtain ⟨heading, declarations, definitions, hdeclarations, hdefinitions, htext⟩ :=
    Cpp.header_text h.header
  refine ⟨classes, heading, declarations, definitions, ?_, hdeclarations, hdefinitions, ?_⟩
  · refine h.resolved.imp ?_
    rintro name r ⟨c, hc, hr⟩
    refine ⟨?_, c, hc, hr⟩
    have hname := (name_of_resolve hr).symm.trans (hlater.declared hc)
    exact Except.ok.inj hname
  · rw [h.source, htext]

/-- Superclass and interfaces come before the class in the order, and the source has the
definitions in this order. -/
theorem compile_defines_bases_first (options : SessionOptions) (provider : Provider (StateM σ))
    (main : Bytes) {s later : Session} {world world' : σ} {compilation : Compilation}
    (hs : Reached options provider s)
    (hrun : ((compile options provider main).run.run s).run world =
      ((.ok compilation, later), world')) :
    compilation.order.Nodup ∧
      (∀ name ∈ compilation.order, ∃ c, later.classes.lookup name = some c ∧ c.name = .ok name ∧
        ∀ base, c.HasBase base → base ≠ name → base.head? ≠ some Ascii.openBracket →
          base ∈ compilation.order ∧
            compilation.order.idxOf base < compilation.order.idxOf name) ∧
      DefinesInOrder options later compilation := by
  obtain ⟨hlater, -, hcompiled⟩ := compile_keeps provider main hs.consistent _ _ _ _ hrun
  obtain ⟨classes, node, hcompiled⟩ := hcompiled compilation rfl
  have hgraph := hcompiled.progress.built.wellFormed
  obtain ⟨hperm, -⟩ := Graph.topologicalOrder_ok hgraph hcompiled.order
  refine ⟨hperm.nodup_iff.mpr hgraph.nodes_nodup, ?_, hcompiled.definesInOrder hlater⟩
  exact fun name hname => hcompiled.bases_first hlater hname

def family : Provider (StateM Nat) where
  fetch name := do
    modify (· + 1)
    let c :=
      if name = text "A" then { Collect.referring name (text "B") with superClass := 4 }
      else if name = text "B" then { Collect.referring name (text "C") with interfaces := [4] }
      else Collect.referring name name
    return .ok { data := c.encode }
  capacity := 3

theorem compile_defines_bases_first_family :
    ∃ compilation later requests, Reached { policy := .structural } family {} ∧
      ((compile { policy := .structural } family (text "A")).run.run {}).run 0 =
        ((.ok compilation, later), requests) ∧
      compilation.order = [text "C", text "B", text "A"] ∧ compilation.order.Nodup ∧
      (∀ base c, later.classes.lookup (text "A") = some c → c.HasBase base → base ≠ text "A" →
        base.head? ≠ some Ascii.openBracket →
          compilation.order.idxOf base < compilation.order.idxOf (text "A")) ∧
      DefinesInOrder { policy := .structural } later compilation := by
  have horder : (((compile { policy := .structural } family (text "A")).run.run {}).run 0).1.1.map
      Compilation.order = .ok [text "C", text "B", text "A"] := by
    decide +kernel
  rcases hrun : ((compile { policy := .structural } family (text "A")).run.run {}).run 0 with
    ⟨⟨result, later⟩, requests⟩
  rw [hrun] at horder
  cases result with
  | error e => cases horder
  | ok compilation =>
    have horder := Except.ok.inj horder
    obtain ⟨hnodup, hbases, hdefines⟩ :=
      compile_defines_bases_first { policy := .structural } family (text "A") .fresh hrun
    refine ⟨compilation, later, requests, .fresh, rfl, horder, hnodup, ?_, hdefines⟩
    intro base c hc hbase hne harray
    obtain ⟨c', hc', -, hfirst⟩ := hbases (text "A") (by rw [horder]; decide)
    cases hc.symm.trans hc'
    exact (hfirst base hbase hne harray).2

end ClassHeader.Session
