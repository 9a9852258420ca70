import ClassHeader.Resolve.Ref
import ClassHeader.Proofs.ClassFile.Valid

/-!
# Resolving the constants of valid class files

In a valid class file every lookup of a name succeeds. Resolving a constant
follows its references through the pool, up to three steps, and can fail in two
ways only: the constant stands for nothing that could be loaded, or its text is
no class name or method type.
-/

namespace ClassHeader

open Result

-- ---------------------------------------------------------------------------
-- Texts that are no names or types
-- ---------------------------------------------------------------------------

namespace Descriptor

abbrev Rejects (e : Error) : Prop := e.Reports .descriptor .invalidData

theorem rejects_malformed (whole detail : Bytes) : Rejects (malformed whole detail) :=
  ⟨_, rfl, rfl, rfl⟩

variable {P : Error → Prop} (hP : ∀ whole detail, P (malformed whole detail))

include hP

theorem fieldAt_onlyFails (whole s : Bytes) : OnlyFails P (fieldAt whole s) := by
  induction s with
  | nil => exact .throw (hP _ _)
  | cons c s ih =>
    unfold fieldAt
    split_ifs
    · exact .bind ih fun _ => .pure _
    · dsimp only
      split
      · exact .throw (hP _ _)
      · split_ifs
        · exact .throw (hP _ _)
        · exact .pure _
    · split
      · exact .pure _
      · exact .throw (hP _ _)

theorem argsAt_onlyFails (whole s : Bytes) : OnlyFails P (argsAt whole s) := by
  fun_induction argsAt whole s with
  | case1 => exact .throw (hP _ _)
  | case2 => exact .pure _
  | case3 => exact .throw (hP _ _)
  | case4 c rest _ _ e he =>
    have h := fieldAt_onlyFails hP whole (c :: rest) e he
    exact .throw h
  | case5 c rest _ _ arg behind _ ih => exact .bind ih fun _ => .pure _

end Descriptor

section

variable {P : Error → Prop} (hP : ∀ whole detail, P (Descriptor.malformed whole detail))

include hP

open Descriptor

theorem FieldType.parse_onlyFails (s : Bytes) : OnlyFails P (FieldType.parse s) := by
  unfold FieldType.parse
  split_ifs
  · exact .throw (hP _ _)
  · refine .bind (fieldAt_onlyFails hP s s) fun found => ?_
    dsimp only
    split_ifs
    · exact .pure _
    · exact .throw (hP _ _)

theorem FieldType.ofClassName_onlyFails (name : Bytes) :
    OnlyFails P (FieldType.ofClassName name) := by
  cases name with
  | nil => exact .throw (hP _ _)
  | cons c rest =>
    unfold FieldType.ofClassName
    dsimp only
    split_ifs
    · exact FieldType.parse_onlyFails hP _
    · exact .throw (hP _ _)
    · exact .pure _

theorem MethodType.parse_onlyFails (s : Bytes) : OnlyFails P (MethodType.parse s) := by
  cases s with
  | nil => exact .throw (hP _ _)
  | cons c rest =>
    unfold MethodType.parse
    dsimp only
    split_ifs
    · exact .throw (hP _ _)
    · refine .bind (argsAt_onlyFails hP _ _) fun ⟨args, behind⟩ => ?_
      cases behind with
      | nil => exact .throw (hP _ _)
      | cons r after =>
        dsimp only
        split_ifs
        · exact .pure _
        · exact .throw (hP _ _)
        · refine .bind (fieldAt_onlyFails hP _ _) fun ⟨result, after⟩ => ?_
          dsimp only
          split_ifs
          · exact .pure _
          · exact .throw (hP _ _)

end

open Descriptor

-- ---------------------------------------------------------------------------
-- Constants
-- ---------------------------------------------------------------------------

namespace Pool

variable {p : Pool} {i : UInt16}

/-- The ways in which resolving a constant of a valid pool can fail: texts and pairs of name and
type stand for nothing by themselves, and the text of a class or method type may be none. -/
inductive Refuses (p : Pool) : Constant → Error → Prop
  | text {value : Bytes} {e : Error} (h : e.Reports .resolve .typeMismatch) :
    Refuses p (.utf8 value) e
  | nameAndType {name descriptor : UInt16} {e : Error} (h : e.Reports .resolve .typeMismatch) :
    Refuses p (.nameAndType name descriptor) e
  | className {index : UInt16} {name : Bytes} {e : Error} (hname : p.utf8 index = .ok name)
    (hparse : FieldType.ofClassName name = .error e)
    (h : e.Reports .descriptor .invalidData) : Refuses p (.classRef index) e
  | methodType {index : UInt16} {descriptor : Bytes} {e : Error}
    (hdescriptor : p.utf8 index = .ok descriptor)
    (hparse : MethodType.parse descriptor = .error e)
    (h : e.Reports .descriptor .invalidData) : Refuses p (.methodType index) e

theorem Valid.exists_handled (hp : p.Valid) {kind : UInt8}
    (h : ∃ tag, Constant.MayHandle kind tag ∧ p.HasTag i tag) :
    ∃ target, p.get i = .ok target ∧ ∃ m, p.member i = .ok m := by
  obtain ⟨tag, hmay, htag⟩ := h
  obtain ⟨target, hget, rfl⟩ := hasTag_iff.mp htag
  refine ⟨target, hget, ?_⟩
  cases target with
  | fieldRef | methodRef | interfaceMethodRef => exact hp.exists_member hget rfl
  | _ => exact hmay.elim

theorem Valid.resolve_onlyFails (hp : p.Valid) {c : Constant} (hget : p.get i = .ok c) :
    OnlyFails (p.Refuses c) (p.resolve i) := by
  have hrefers := hp.refers hget
  simp only [resolve, hget, ok_bind]
  cases c with
  | utf8 value => exact .throw (.text ⟨_, rfl, rfl, rfl⟩)
  | nameAndType name descriptor => exact .throw (.nameAndType ⟨_, rfl, rfl, rfl⟩)
  | integer | float | long | double => exact .pure _
  | string index =>
    obtain ⟨value, hvalue⟩ := exists_utf8_iff.mpr hrefers
    simp only [Constant.literal?, hvalue, ok_bind, pure_bind]
    exact .pure _
  | classRef index =>
    obtain ⟨name, hname⟩ := exists_utf8_iff.mpr hrefers
    simp only [Constant.literal?, hname, ok_bind, pure_bind]
    have hparse : OnlyFails (p.Refuses (.classRef index)) (FieldType.ofClassName name) :=
      fun e he => .className hname he (FieldType.ofClassName_onlyFails rejects_malformed name e he)
    exact .bind hparse fun _ => .pure _
  | methodType index =>
    obtain ⟨descriptor, hdescriptor⟩ := exists_utf8_iff.mpr hrefers
    simp only [Constant.literal?, hdescriptor, ok_bind, pure_bind]
    have hparse : OnlyFails (p.Refuses (.methodType index)) (MethodType.parse descriptor) :=
      fun e he => .methodType hdescriptor he
        (MethodType.parse_onlyFails rejects_malformed descriptor e he)
    exact .bind hparse fun _ => .pure _
  | fieldRef | methodRef | interfaceMethodRef =>
    obtain ⟨m, hm⟩ := hp.exists_member hget rfl
    simp only [Constant.literal?, hm, ok_bind, pure_bind]
    exact .pure _
  | methodHandle kind reference =>
    obtain ⟨target, htarget, m, hm⟩ := hp.exists_handled hrefers
    simp only [Constant.literal?, htarget, hm, ok_bind, pure_bind]
    exact .pure _
  | dynamic bootstrap nat | invokeDynamic bootstrap nat =>
    obtain ⟨pair, hpair⟩ := hp.exists_nameAndType hrefers
    simp only [Constant.literal?, hpair, ok_bind, pure_bind]
    exact .pure _
  | moduleRef index | packageRef index =>
    obtain ⟨name, hname⟩ := exists_utf8_iff.mpr hrefers
    simp only [Constant.literal?, hname, ok_bind, pure_bind]
    exact .pure _

end Pool

-- ---------------------------------------------------------------------------
-- Class files
-- ---------------------------------------------------------------------------

theorem MemberInfo.Valid.exists_names {p : Pool} {m : MemberInfo} (h : m.Valid p) :
    (∃ name, m.name p = .ok name) ∧ (∃ descriptor, m.descriptor p = .ok descriptor) ∧
      ∀ a ∈ m.attributes, ∃ name, a.name p = .ok name :=
  ⟨Pool.exists_utf8_iff.mpr h.name, Pool.exists_utf8_iff.mpr h.descriptor,
    fun a ha => Pool.exists_utf8_iff.mpr (h.attributes a ha)⟩

namespace ClassFile

variable {c : ClassFile}

theorem Valid.exists_superName (h : c.Valid) : ∃ name, c.superName = .ok name := by
  unfold superName hasSuper
  split_ifs with hsuper
  · exact h.pool.exists_className_iff.mpr (h.super (by simpa using hsuper))
  · exact ⟨[], rfl⟩

theorem Valid.exists_interfaceNames (h : c.Valid) : ∃ names, c.interfaceNames = .ok names := by
  unfold interfaceNames
  exact exists_mapM fun i hi => h.pool.exists_className_iff.mpr (h.interfaces i hi)

/-- Validation accepts exactly the valid class files. In these all names and descriptors can be
looked up, and every constant can be resolved unless `Refuses` says how it fails. -/
theorem validate_ok_iff_and_resolvable (c : ClassFile) :
    (c.validate = .ok () ↔ c.Valid) ∧
      (c.validate = .ok () →
        (∃ name, c.name = .ok name) ∧ (∃ name, c.superName = .ok name) ∧
        (∃ names, c.interfaceNames = .ok names) ∧
        (∀ m ∈ c.fields ++ c.methods, (∃ name, m.name c.pool = .ok name) ∧
          (∃ descriptor, m.descriptor c.pool = .ok descriptor) ∧
          ∀ a ∈ m.attributes, ∃ name, a.name c.pool = .ok name) ∧
        (∀ a ∈ c.attributes, ∃ name, a.name c.pool = .ok name) ∧
        ∀ i constant, i ≠ 0 → c.pool.entries[i.toNat]? = some (some constant) →
          ∀ e, c.pool.resolve i = .error e → c.pool.Refuses constant e) := by
  refine ⟨validate_ok_iff, fun hok => ?_⟩
  have h := validate_ok_iff.mp hok
  refine ⟨h.pool.exists_className_iff.mpr h.this, h.exists_superName, h.exists_interfaceNames,
    ?_, ?_, ?_⟩
  · intro m hm
    rcases List.mem_append.mp hm with hm | hm
    · exact (h.fields m hm).exists_names
    · exact (h.methods m hm).exists_names
  · intro a ha
    exact Pool.exists_utf8_iff.mpr (h.attributes a ha)
  · intro i constant hne hentry
    exact h.pool.resolve_onlyFails (Pool.get_ok_iff.mpr ⟨hne, hentry⟩)

/-- A class file with a handle for an interface method and a method type whose text is none. -/
def handling : ClassFile where
  magic := 0xCAFEBABE
  minor := 0
  major := 52
  pool := ⟨[none, some (.methodHandle 9 2), some (.interfaceMethodRef 3 4), some (.classRef 5),
    some (.nameAndType 5 6), some (.utf8 (text "A")), some (.utf8 (text "()V")),
    some (.methodType 5)]⟩
  access := 0x21
  thisClass := 3
  superClass := 0
  interfaces := [3]
  fields := []
  methods := [{ access := 1, nameIndex := 5, descriptorIndex := 6, attributes := [⟨5, []⟩] }]
  attributes := []

theorem validate_ok_iff_and_resolvable_handling :
    handling.validate = .ok () ∧ handling.Valid ∧ (∃ names, handling.interfaceNames = .ok names) ∧
      ∃ e, handling.pool.resolve 7 = .error e ∧ handling.pool.Refuses (.methodType 5) e := by
  have hok : handling.validate = .ok () := by decide +kernel
  obtain ⟨hiff, hnames⟩ := validate_ok_iff_and_resolvable handling
  obtain ⟨-, -, hinterfaces, -, -, hresolve⟩ := hnames hok
  obtain ⟨e, he⟩ : ∃ e, handling.pool.resolve 7 = .error e := ⟨_, rfl⟩
  exact ⟨hok, hiff.mp hok, hinterfaces, e, he, hresolve 7 (.methodType 5) (by decide) rfl e he⟩

end ClassFile
end ClassHeader
