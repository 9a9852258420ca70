import ClassHeader.Proofs.Cpp.Disassembly
import ClassHeader.Proofs.Cpp.TypeText

/-!
# Packages of a header

The parts of a header are checked when they are built: names have to be identifiers, types
need flags that go together, values need a written form and no child may be absent. Names
are made so that they pass, and types and values are always of a kind that does. What can
fail is the package of a class that is named: a slash with nothing before it leaves a
namespace without a name. Packages are checked before anything else, in the order in which
the classes are first named.
-/

namespace ClassHeader.Cpp

-- ---------------------------------------------------------------------------
-- Names pass their checks
-- ---------------------------------------------------------------------------

theorem isIdentifier_unreserved {s : Bytes} (h : isIdentifier s = true) :
    isIdentifier (unreserved s) = true := by
  rw [unreserved]
  split_ifs
  · exact isIdentifier_append h (by decide +kernel)
  · exact h

/-- A qualified name stands behind its first colons as the identifiers of its parts. -/
theorem isQualified_qualifiedName (className : Bytes) :
    isQualified (qualifiedName className) = true := by
  obtain ⟨part, parts, hparts⟩ : ∃ part parts,
      packageParts (splitClassName className).1 ++ [(splitClassName className).2] =
        part :: parts := by
    cases h : packageParts (splitClassName className).1 with
    | nil => exact ⟨_, _, rfl⟩
    | cons part parts => exact ⟨_, _, rfl⟩
  have hname : qualifiedName className =
      Ascii.colon :: Ascii.colon :: (mangle part ++ scopePath parts) := by
    have hpath : qualifiedName className = scopePath (part :: parts) := by
      rw [← hparts]
      rfl
    rw [hpath, scopePath, List.flatMap_cons, show text "::" = [Ascii.colon, Ascii.colon] by decide]
    rfl
  have hscopes : splitScopes (mangle part ++ scopePath parts) = (part :: parts).map mangle := by
    rw [splitScopes_append (colon_notMem_mangle part) (splitScopes_scopePath parts),
      List.append_nil, List.map_cons]
  have hne : mangle part ++ scopePath parts ≠ [] := by
    intro hempty
    rw [hempty] at hscopes
    have hidentifier := isIdentifier_mangle part
    rw [← (List.cons.inj hscopes).1] at hidentifier
    cases hidentifier
  rw [hname, isQualified]
  simp [hne, hscopes, isIdentifier_mangle]

namespace Header

theorem isIdentifier_fieldCandidate (name : Bytes) (n : Nat) :
    isIdentifier (fieldCandidate name n) = true := by
  have hidentifier := (escapes_escape name).isIdentifier
  have hletter : ∀ b ∈ text "_F", isIdentRest b = true := by decide +kernel
  match n with
  | 0 => exact isIdentifier_mangle name
  | 1 => exact isIdentifier_append hidentifier hletter
  | n + 2 =>
    exact isIdentifier_append (isIdentifier_append hidentifier hletter) fun _ =>
      isIdentRest_of_mem_ofNat

theorem isIdentifier_numbered (name : Bytes) (n : Nat) :
    isIdentifier (numbered name n) = true := by
  refine isIdentifier_unreserved (isIdentifier_append (escapes_escape name).isIdentifier ?_)
  split_ifs
  · exact List.forall_mem_nil _
  · exact List.forall_mem_append.mpr ⟨by decide +kernel, fun _ => isIdentRest_of_mem_ofNat⟩

end Header

-- ---------------------------------------------------------------------------
-- Parts that can always be built
-- ---------------------------------------------------------------------------

namespace Node

theorem exists_makeField (type : TypeRef) {name : Bytes} (h : isIdentifier name = true)
    (init : Option Node) (constexpr : Bool) :
    ∃ node, makeField (some type) name init constexpr = .ok node :=
  ⟨_, Result.bind_ok_iff.mpr ⟨(), Result.ensure_ok_iff.mpr h, rfl⟩⟩

theorem exists_makeParam (function : Bytes) (type : TypeRef) {name : Bytes}
    (h : isIdentifier name = true) : ∃ param, makeParam function (some type) name = .ok param :=
  ⟨_, Result.bind_ok_iff.mpr ⟨(), Result.ensure_ok_iff.mpr h, rfl⟩⟩

theorem exists_params (function : Bytes) (types : List TypeRef) {names : List Bytes}
    (h : ∀ name ∈ names, isIdentifier name = true) :
    ∃ params, ((types.map some).zip names).mapM
      (fun (type, param) => makeParam function type param) = .ok params := by
  refine Result.exists_mapM ?_
  rintro ⟨type?, param⟩ hpair
  obtain ⟨type, -, rfl⟩ := List.mem_map.mp (List.of_mem_zip hpair).1
  exact exists_makeParam function type (h param (List.of_mem_zip hpair).2)

theorem exists_makeFunction (result : TypeRef) {name : Bytes} (h : isIdentifier name = true)
    {types : List TypeRef} {names : List Bytes} (hnames : ∀ name ∈ names, isIdentifier name = true)
    (isVirtual isPure : Bool) (body : Option (List Node)) :
    ∃ node, makeFunction (some result) name ((types.map some).zip names) isVirtual isPure body =
      .ok node := by
  obtain ⟨params, hparams⟩ := exists_params name types hnames
  exact ⟨_, Result.bind_ok_iff.mpr ⟨(), Result.ensure_ok_iff.mpr h,
    Result.bind_ok_iff.mpr ⟨params, hparams, rfl⟩⟩⟩

theorem adopt_some (present children : List Node) :
    adopt present (children.map some) = .ok (present ++ children) := by
  have hpresent : (children.map some).findIdx? Option.isNone = none := by
    rw [List.findIdx?_eq_none_iff, List.forall_mem_map]
    exact fun _ _ => rfl
  rw [adopt, hpresent]
  simp [pure, Except.pure]

theorem exists_makeStruct {name : Bytes} {bases : List Bytes} (hname : isIdentifier name = true)
    (hbases : ∀ base ∈ bases, isQualified base = true) (children : List Node) :
    ∃ node, makeStruct name bases (children.map some) = .ok node := by
  simp only [makeStruct, adopt_some, Result.bind_ok_iff, Result.ensure_ok_iff]
  refine ⟨_, (), hname, (), Result.forIn_ok fun base hbase => ?_, _, rfl, rfl⟩
  exact Result.bind_ok_iff.mpr ⟨(), Result.ensure_ok_iff.mpr (hbases base hbase), rfl⟩

theorem exists_makeLiteral {value : Value} (h : ∀ typeName, value ≠ .other typeName) :
    ∃ node, makeLiteral value = .ok node := by
  cases value with
  | other typeName => exact absurd rfl (h typeName)
  | _ => exact ⟨_, rfl⟩

end Node

namespace Header

open Node

variable (options : HeaderOptions)

theorem exists_stored (access : AccessFlags) {type : TypeRef} (h : type.Simple) :
    ∃ t, stored access type = .ok t := by
  rw [stored]
  split_ifs
  · refine ⟨_, TypeRef.make_of_valid h.named ?_⟩
    rcases h.flags with hplain | hpointer
    · rw [hplain]
      decide
    · rw [hpointer]
      decide
  · exact ⟨type, rfl⟩

theorem constantOf_ne_other (type : FieldType) (value : Literal) (typeName : Bytes) :
    constantOf type value ≠ .other typeName := by
  unfold constantOf
  split
  · split <;> rintro ⟨⟩
  all_goals rintro ⟨⟩

theorem zeroOf_ne_other (type : FieldType) (typeName : Bytes) : zeroOf type ≠ .other typeName := by
  unfold zeroOf
  split <;> rintro ⟨⟩

theorem exists_field (f : ResolvedField) {name : Bytes} (h : isIdentifier name = true) :
    ∃ nodes, field f name = .ok nodes := by
  obtain ⟨written, hwritten, hsimple⟩ := TypeRef.exists_ofField f.type
  obtain ⟨type, htype⟩ := exists_stored f.access hsimple
  obtain ⟨plain, hplain⟩ := exists_makeField type h none false
  simp only [field, TypeRef.ofDescriptor_some, hwritten, htype, hplain, Result.ok_bind]
  split
  · exact ⟨_, rfl⟩
  · exact ⟨_, rfl⟩
  · next value _ _ =>
    obtain ⟨init, hinit⟩ := exists_makeLiteral (constantOf_ne_other f.type value)
    obtain ⟨node, hnode⟩ := exists_makeField type h (some init) true
    rw [hinit, Result.ok_bind, hnode]
    exact ⟨_, rfl⟩

theorem exists_returnZero (result : Option FieldType) : ∃ node, returnZero result = .ok node := by
  have hvalues : ∃ values, (result.map zeroOf).toList.mapM makeLiteral = .ok values := by
    refine Result.exists_mapM fun value hvalue => exists_makeLiteral ?_
    obtain ⟨type, -, rfl⟩ := Option.map_eq_some_iff.mp (Option.mem_toList.mp hvalue)
    exact zeroOf_ne_other type
  obtain ⟨values, hvalues⟩ := hvalues
  rw [returnZero, hvalues]
  exact ⟨_, rfl⟩

theorem exists_methodBody (inInterface : Bool) (m : ResolvedMethod) :
    ∃ body, methodBody options inInterface m = .ok body := by
  obtain ⟨last, hlast⟩ := exists_returnZero m.type.result
  rw [methodBody, hlast]
  split
  · split
    · exact ⟨none, rfl⟩
    · exact ⟨_, rfl⟩
  · exact ⟨none, rfl⟩

theorem exists_ofResult (result : Option FieldType) :
    ∃ t, TypeRef.ofResult result = .ok t ∧ t.Simple := by
  cases result with
  | none => exact TypeRef.make_plain (by decide)
  | some type => exact TypeRef.exists_ofField type

theorem exists_method (inInterface : Bool) (m : ResolvedMethod) {name : Bytes}
    (h : isIdentifier name = true) : ∃ node, method options inInterface m name = .ok node := by
  obtain ⟨written, hwritten, hsimple⟩ := exists_ofResult m.type.result
  obtain ⟨result, hresult⟩ := exists_stored m.access hsimple
  obtain ⟨types, htypes⟩ : ∃ types, m.type.args.mapM TypeRef.ofField = .ok types :=
    Result.exists_mapM fun arg _ => (TypeRef.exists_ofField arg).imp fun _ => And.left
  obtain ⟨body, hbody⟩ := exists_methodBody options inInterface m
  simp only [method, TypeRef.ofDescriptor_some, hwritten, hresult, htypes, hbody, Result.ok_bind]
  exact exists_makeFunction result h (fun _ hname => (isIdentifier_of_mem_paramNames hname).1) _ _ _

theorem exists_fields (c : ResolvedClass) :
    ∃ fields, ((c.fields.zip (fieldNames c)).mapM fun (f, name) => field f name) = .ok fields := by
  refine Result.exists_mapM ?_
  rintro ⟨f, name⟩ hpair
  obtain ⟨-, n, rfl⟩ := fieldNamesFrom_free hpair
  exact exists_field f (isIdentifier_fieldCandidate f.name n)

theorem exists_methods (inInterface : Bool) (c : ResolvedClass) :
    ∃ methods, ((c.methods.zip (methodNames c)).mapM fun (m, name) =>
      (method options inInterface m name).mapError (methodFault m.name)) = .ok methods := by
  refine Result.exists_mapM ?_
  rintro ⟨m, name⟩ hpair
  obtain ⟨n, -, rfl⟩ := methodNamesFrom_numbered hpair
  obtain ⟨node, hnode⟩ := exists_method options inInterface m (isIdentifier_numbered m.name n)
  exact ⟨node, Result.mapError_ok_iff.mpr hnode⟩

theorem exists_members (c : ResolvedClass) : ∃ nodes, members options c = .ok nodes := by
  obtain ⟨fields, hfields⟩ := exists_fields c
  obtain ⟨methods, hmethods⟩ := exists_methods options (c.access.has AccessFlags.isInterface) c
  simp only [members, hfields, hmethods, Result.ok_bind]
  exact ⟨_, rfl⟩

theorem exists_definition {c : ResolvedClass}
    (h : [] ∉ packageParts (splitClassName c.name).1) :
    ∃ node, definition options c = .ok node := by
  obtain ⟨path, hpath⟩ := exists_scopePath h
  obtain ⟨nodes, hnodes⟩ := exists_members options c
  have hbases : ∀ base ∈ baseNames c, isQualified base = true :=
    List.forall_mem_map.mpr fun name _ => isQualified_qualifiedName name
  obtain ⟨struct, hstruct⟩ := exists_makeStruct
    (isIdentifier_mangle (splitClassName c.name).2) hbases
    (if nodes.isEmpty then [] else [.access (text "public") nodes])
  have hchildren : (if nodes.isEmpty then [] else [some (Node.access (text "public") nodes)]) =
      (if nodes.isEmpty then [] else [Node.access (text "public") nodes]).map some := by
    split_ifs <;> rfl
  rw [← hchildren] at hstruct
  simp only [definition, hpath, hnodes, hstruct, Result.ok_bind]
  exact ⟨_, rfl⟩

end Header

-- ---------------------------------------------------------------------------
-- Packages with a gap
-- ---------------------------------------------------------------------------

/-- The package of the class is not empty, and one of its parts is. -/
def Gapped (className : Bytes) : Prop :=
  (splitClassName className).1 ≠ [] ∧
    [] ∈ Text.splitOn Ascii.slash (splitClassName className).1

instance (className : Bytes) : Decidable (Gapped className) := inferInstanceAs (Decidable (_ ∧ _))

theorem gapped_iff {className : Bytes} :
    Gapped className ↔ [] ∈ packageParts (splitClassName className).1 := by
  rw [Gapped, packageParts]
  split_ifs with hempty
  · simp [hempty]
  · exact and_iff_right hempty

def gapFault (package : Bytes) : Error :=
  .invalidConfig .codegen (text "namespace") (text "empty segment in package " ++ package)

theorem scopePath_of_gap {package : Bytes} (h : [] ∈ packageParts package) :
    Node.scopePath package = .error (gapFault package) := by
  rw [Node.scopePath, ensure, if_neg (not_not.mpr h)]
  rfl

theorem find?_eraseDups (p : Bytes → Bool) : (as : List Bytes) → as.eraseDups.find? p = as.find? p
  | [] => rfl
  | a :: as => by
    rw [List.eraseDups_cons, List.find?_cons, List.find?_cons]
    cases hp : p a with
    | true => rfl
    | false =>
      rw [find?_eraseDups p (as.filter _), List.find?_filter]
      refine congrArg (List.find? · as) (funext fun other => ?_)
      by_cases hother : other = a
      · simp [hother, hp]
      · simp [hother]
termination_by as => as.length
decreasing_by exact Nat.lt_succ_of_le (List.length_filter_le _ _)

namespace Header

theorem exists_makeScope {package : Bytes} (h : [] ∉ packageParts package)
    (children : List Node) : ∃ node, Node.makeScope package (children.map some) = .ok node := by
  obtain ⟨path, hpath⟩ := exists_scopePath h
  simp only [Node.makeScope, hpath, Node.adopt_some, Result.ok_bind]
  exact ⟨_, rfl⟩

theorem declarations_of_gap {names : List Bytes} {name : Bytes}
    (h : names.find? (fun name => Gapped name) = some name) :
    declarations names = .error (gapFault (splitClassName name).1) := by
  have hgap : [] ∈ packageParts (splitClassName name).1 := by
    have hfound := List.find?_some h
    exact gapped_iff.mp (of_decide_eq_true hfound)
  have hfind : (names.map fun name => (splitClassName name).1).eraseDups.find?
      (fun package => [] ∈ packageParts package) = some (splitClassName name).1 := by
    rw [find?_eraseDups, List.find?_map]
    have hsame : ((fun package => decide ([] ∈ packageParts package)) ∘
        fun name => (splitClassName name).1) = fun name => decide (Gapped name) := by
      funext name
      simp [gapped_iff]
    rw [hsame, h, Option.map_some]
  refine Result.mapM_error_of_find? hfind (fun package _ hfree => ?_) ?_
  · obtain ⟨node, hnode⟩ := exists_makeScope (of_decide_eq_false hfree)
      ((names.filter fun name => (splitClassName name).1 = package).map fun name =>
        .forward (mangle (splitClassName name).2))
    rw [List.map_map] at hnode
    exact ⟨node, hnode⟩
  · rw [Node.makeScope, scopePath_of_gap hgap]
    rfl

end Header

-- ---------------------------------------------------------------------------
-- Headers of classes that are looked up
-- ---------------------------------------------------------------------------

section

variable {options : HeaderOptions} {order : List Bytes} {classes : List ResolvedClass}

open Header

theorem exists_header (horder : classes.map (·.name) = order)
    (h : ∀ name ∈ declaredNames order classes, ¬ Gapped name) :
    ∃ node, header options order classes = .ok node := by
  obtain ⟨declared, hdeclared⟩ := exists_declarations fun name hname =>
    gapped_iff.not.mp (h name hname)
  have hdefinitions : ∃ defined, (classes.mapM fun c =>
      (definition options c).mapError (·.withClass .codegen c.name)) = .ok defined := by
    refine Result.exists_mapM fun c hc => ?_
    have hfree : ¬ Gapped c.name := by
      intro hgap
      have hne : c.name ≠ [] := by
        intro hempty
        rw [hempty] at hgap
        exact hgap.1 rfl
      refine h c.name (mem_declaredNames.mpr ⟨hne, .inl ?_⟩) hgap
      rw [← horder]
      exact List.mem_map_of_mem hc
    obtain ⟨node, hnode⟩ := exists_definition options (gapped_iff.not.mp hfree)
    exact ⟨node, Result.mapError_ok_iff.mpr hnode⟩
  obtain ⟨defined, hdefined⟩ := hdefinitions
  rw [header, hdeclared, Result.ok_bind, hdefined]
  exact ⟨_, rfl⟩

theorem header_of_gap {name : Bytes}
    (h : (declaredNames order classes).find? (fun name => Gapped name) = some name) :
    header options order classes = .error (gapFault (splitClassName name).1) := by
  rw [header, declarations_of_gap h]
  rfl

end

section

variable {σ : Type} {lookup : Bytes → StateM σ (Result ResolvedClass)} {order : List Bytes}

theorem exists_lookupAll (h : ∀ name ∈ order, ∀ world,
      ∃ c, ((lookup name).run world).1 = .ok c ∧ c.name = name) (world : σ) :
    ∃ classes, ((lookupAll lookup order).run world).1 = .ok classes ∧
      classes.map (·.name) = order := by
  induction order generalizing world with
  | nil => exact ⟨[], rfl, rfl⟩
  | cons name order ih =>
    rw [List.forall_mem_cons] at h
    obtain ⟨c, hc, hname⟩ := h.1 world
    cases hrun : (lookup name).run world with
    | mk found after =>
      rw [hrun] at hc
      obtain rfl : found = .ok c := hc
      obtain ⟨classes, hclasses, hnames⟩ := ih h.2 after
      refine ⟨c :: classes, ?_, by rw [List.map_cons, hname, hnames]⟩
      rw [lookupAll, StateT.run_bind, hrun]
      show ((lookupAll lookup order).run after).1.map (c :: ·) = _
      rw [hclasses]
      rfl

/-- Of classes that are found under their names a header can be built exactly if no package of the
order and of the classes that they name has a gap. Otherwise building fails with the package of the
first class that has one, in the order in which they are first named. Each of the classes can be
defined if its own package has no gap, so no other check of a part of a header ever fails. -/
theorem build_ok_iff_packages (hlookup : ∀ name ∈ order, ∀ world,
      ∃ c, ((lookup name).run world).1 = .ok c ∧ c.name = name)
    (options : HeaderOptions) (world : σ) :
    ∃ classes, ((lookupAll lookup order).run world).1 = .ok classes ∧
      classes.map (·.name) = order ∧
      let built := ((build options (some lookup) order).run world).1
      ((∃ node, built = .ok node) ↔
        ∀ name, (name ∈ order ∨ ∃ c ∈ classes, Mentions c name) → ¬ Gapped name) ∧
      ((¬ ∃ node, built = .ok node) → ∃ name,
        (Header.declaredNames order classes).find? (fun name => Gapped name) = some name ∧
        built = .error (.invalidConfig .codegen (text "namespace")
          (text "empty segment in package " ++ (splitClassName name).1))) ∧
      ∀ c ∈ classes, ¬ Gapped c.name → ∃ node, Header.definition options c = .ok node := by
  obtain ⟨classes, hclasses, hnames⟩ := exists_lookupAll hlookup world
  have hbuilt :
      ((build options (some lookup) order).run world).1 = header options order classes := by
    rw [run_build, hclasses]
    rfl
  have hmem : (∀ name ∈ Header.declaredNames order classes, ¬ Gapped name) ↔
      ∀ name, (name ∈ order ∨ ∃ c ∈ classes, Mentions c name) → ¬ Gapped name := by
    refine forall_congr' fun name => ?_
    rw [Header.mem_declaredNames]
    refine ⟨fun h hname hgap => ?_, fun h hname => h hname.2⟩
    -- The empty name has no package at all.
    by_cases hempty : name = []
    · rw [hempty] at hgap
      exact hgap.1 rfl
    · exact h ⟨hempty, hname⟩ hgap
  refine ⟨classes, hclasses, hnames, ?_⟩
  simp only [hbuilt, ← hmem]
  cases hfind : (Header.declaredNames order classes).find? (fun name => Gapped name) with
  | none =>
    have hfree : ∀ name ∈ Header.declaredNames order classes, ¬ Gapped name := by
      simpa using hfind
    have hnode : ∃ node, header options order classes = .ok node := exists_header hnames hfree
    exact ⟨iff_of_true hnode hfree, fun hnone => absurd hnode hnone,
      fun c _ hc => Header.exists_definition options (gapped_iff.not.mp hc)⟩
  | some name =>
    have herror : header options order classes = .error (gapFault (splitClassName name).1) :=
      header_of_gap hfind
    have hnone : ¬ ∃ node, header options order classes = .ok node := by
      rintro ⟨node, hnode⟩
      rw [herror] at hnode
      cases hnode
    have hgap : Gapped name := by
      have hfound := List.find?_some hfind
      exact of_decide_eq_true hfound
    exact ⟨iff_of_false hnone fun hfree => hfree name (List.mem_of_find?_eq_some hfind) hgap,
      fun _ => ⟨name, rfl, herror⟩,
      fun c _ hc => Header.exists_definition options (gapped_iff.not.mp hc)⟩

end

def wiredWithGap (name : Bytes) : ResolvedClass :=
  { wired with name, interfaces := [text "I", text "/p//J"] }

theorem build_ok_iff_packages_wiredWithGap :
    let lookup : Bytes → StateM Unit (Result ResolvedClass) :=
      fun name => pure (.ok (wiredWithGap name))
    (∀ name ∈ [text "a/B"], ∀ world, ∃ c, ((lookup name).run world).1 = .ok c ∧ c.name = name) ∧
      ((build {} (some lookup) [text "a/B"]).run ()).1 =
        .error (.invalidConfig .codegen (text "namespace")
          (text "empty segment in package " ++ text "/p/")) := by
  intro lookup
  have hlookup : ∀ name ∈ [text "a/B"], ∀ world,
      ∃ c, ((lookup name).run world).1 = .ok c ∧ c.name = name :=
    fun name _ _ => ⟨wiredWithGap name, rfl, rfl⟩
  refine ⟨hlookup, ?_⟩
  obtain ⟨classes, hclasses, -, hiff, hfails, -⟩ := build_ok_iff_packages hlookup {} ()
  obtain rfl : [wiredWithGap (text "a/B")] = classes := Except.ok.inj hclasses
  have hgap : Gapped (text "/p//J") := by decide +kernel
  have hmentions : Mentions (wiredWithGap (text "a/B")) (text "/p//J") :=
    .interface (by decide +kernel)
  obtain ⟨name, hfind, herror⟩ := hfails fun hnode =>
    hiff.mp hnode _ (.inr ⟨_, List.mem_singleton_self _, hmentions⟩) hgap
  have hfirst : (Header.declaredNames [text "a/B"] [wiredWithGap (text "a/B")]).find?
      (fun name => Gapped name) = some (text "/p//J") := by
    decide +kernel
  have hpackage : (splitClassName (text "/p//J")).1 = text "/p/" := by decide +kernel
  rw [hfirst] at hfind
  rw [herror, ← Option.some.inj hfind, hpackage]

end ClassHeader.Cpp
