import ClassHeader.ClassFile.Validate
import ClassHeader.Proofs.Result

/-!
# Valid class files

`validate_ok_iff`: validation accepts a class file exactly if every index in it
refers to a constant of the kind that its place asks for. Validation follows each
index of a constant for one step only. Since it does so for all constants of the
pool, chains of references are sound in a valid pool: the lookups of names, types
and members succeed wherever they find a constant of their kind.
-/

namespace ClassHeader

-- ---------------------------------------------------------------------------
-- What indices have to refer to
-- ---------------------------------------------------------------------------

/-- A constant with the tag stands at the index. Nothing stands at index zero, whatever is stored
in that slot. -/
def Pool.HasTag (p : Pool) (i : UInt16) (tag : Tag) : Prop :=
  i ≠ 0 ∧ ∃ c, p.entries[i.toNat]? = some (some c) ∧ c.tag = tag

namespace Constant

/-- Kinds of handles 1 to 4 read or write a field, 5 calls a virtual, 6 a static and 7 a special
method, 8 a constructor and 9 an interface method. Static and special calls may go to
interfaces, too, and kinds that do not exist count as virtual calls. -/
def MayHandle (kind : UInt8) : Tag → Prop
  | .fieldRef => kind ∈ [1, 2, 3, 4]
  | .methodRef => kind ∉ [1, 2, 3, 4, 9]
  | .interfaceMethodRef => kind ∈ [6, 7, 9]
  | _ => False

def Refers (p : Pool) : Constant → Prop
  | .classRef i | .string i | .methodType i | .moduleRef i | .packageRef i => p.HasTag i .utf8
  | .nameAndType name descriptor => p.HasTag name .utf8 ∧ p.HasTag descriptor .utf8
  | .fieldRef owner nat | .methodRef owner nat | .interfaceMethodRef owner nat =>
    p.HasTag owner .classRef ∧ p.HasTag nat .nameAndType
  | .dynamic _ nat | .invokeDynamic _ nat => p.HasTag nat .nameAndType
  | .methodHandle kind reference => ∃ tag, MayHandle kind tag ∧ p.HasTag reference tag
  | .utf8 _ | .integer _ | .float _ | .long _ _ | .double _ _ => True

end Constant

def Pool.Valid (p : Pool) : Prop :=
  ∀ i c, 1 ≤ i → p.entries[i]? = some (some c) → c.Refers p

def Attribute.Valid (p : Pool) (a : Attribute) : Prop := p.HasTag a.nameIndex .utf8

structure MemberInfo.Valid (p : Pool) (m : MemberInfo) : Prop where
  name : p.HasTag m.nameIndex .utf8
  descriptor : p.HasTag m.descriptorIndex .utf8
  attributes : ∀ a ∈ m.attributes, a.Valid p

structure ClassFile.Valid (c : ClassFile) : Prop where
  pool : c.pool.Valid
  this : c.pool.HasTag c.thisClass .classRef
  super : c.superClass ≠ 0 → c.pool.HasTag c.superClass .classRef
  interfaces : ∀ i ∈ c.interfaces, c.pool.HasTag i .classRef
  fields : ∀ m ∈ c.fields, m.Valid c.pool
  methods : ∀ m ∈ c.methods, m.Valid c.pool
  attributes : ∀ a ∈ c.attributes, a.Valid c.pool

-- ---------------------------------------------------------------------------
-- Lookups
-- ---------------------------------------------------------------------------

namespace Pool

variable {p : Pool} {i : UInt16} {tag : Tag} {c : Constant}

theorem get_ok_iff : p.get i = .ok c ↔ i ≠ 0 ∧ p.entries[i.toNat]? = some (some c) := by
  unfold get
  split
  · rename_i hzero
    simp [hzero]
  · rename_i hne
    split <;> simp_all

theorem hasTag_iff : p.HasTag i tag ↔ ∃ c, p.get i = .ok c ∧ c.tag = tag := by
  simp only [HasTag, get_ok_iff]
  constructor
  · rintro ⟨hne, c, hc, htag⟩
    exact ⟨c, ⟨hne, hc⟩, htag⟩
  · rintro ⟨c, ⟨hne, hc⟩, htag⟩
    exact ⟨hne, c, hc, htag⟩

theorem exists_utf8_iff : (∃ value, p.utf8 i = .ok value) ↔ p.HasTag i .utf8 := by
  simp only [hasTag_iff, utf8, Result.bind_ok_iff]
  constructor
  · rintro ⟨value, c, hget, hvalue⟩
    refine ⟨c, hget, ?_⟩
    cases c with
    | utf8 value => rfl
    | _ => cases hvalue
  · rintro ⟨c, hget, htag⟩
    cases c with
    | utf8 value => exact ⟨value, _, hget, rfl⟩
    | _ => cases htag

theorem Valid.refers (hp : p.Valid) (hget : p.get i = .ok c) : c.Refers p := by
  obtain ⟨hne, hentry⟩ := get_ok_iff.mp hget
  have hpos : i.toNat ≠ 0 := fun h => hne (UInt16.toNat_inj.mp h)
  exact hp i.toNat c (by omega) hentry

theorem Valid.exists_className_iff (hp : p.Valid) :
    (∃ name, p.className i = .ok name) ↔ p.HasTag i .classRef := by
  simp only [hasTag_iff, className, Result.bind_ok_iff]
  constructor
  · rintro ⟨name, c, hget, hname⟩
    refine ⟨c, hget, ?_⟩
    cases c with
    | classRef index => rfl
    | _ => cases hname
  · rintro ⟨c, hget, htag⟩
    cases c with
    | classRef index =>
      obtain ⟨name, hname⟩ := exists_utf8_iff.mpr (hp.refers hget)
      exact ⟨name, _, hget, hname⟩
    | _ => cases htag

theorem Valid.exists_nameAndType (hp : p.Valid) (h : p.HasTag i .nameAndType) :
    ∃ pair, p.nameAndType i = .ok pair := by
  obtain ⟨c, hget, htag⟩ := hasTag_iff.mp h
  cases c with
  | nameAndType nameIndex descriptorIndex =>
    obtain ⟨hname, hdescriptor⟩ := hp.refers hget
    obtain ⟨name, hname⟩ := exists_utf8_iff.mpr hname
    obtain ⟨descriptor, hdescriptor⟩ := exists_utf8_iff.mpr hdescriptor
    exact ⟨(name, descriptor), by simp [nameAndType, hget, hname, hdescriptor]⟩
  | _ => cases htag

theorem Valid.exists_member (hp : p.Valid) {owner nat : UInt16} (hget : p.get i = .ok c)
    (hindices : c.memberIndices? = some (owner, nat)) : ∃ m, p.member i = .ok m := by
  have hrefers : p.HasTag owner .classRef ∧ p.HasTag nat .nameAndType := by
    have h := hp.refers hget
    cases c with
    | fieldRef | methodRef | interfaceMethodRef =>
      cases hindices
      exact h
    | _ => cases hindices
  obtain ⟨name, hname⟩ := hp.exists_className_iff.mpr hrefers.1
  obtain ⟨pair, hpair⟩ := hp.exists_nameAndType hrefers.2
  exact ⟨_, by simp only [member, hget, hindices, hname, hpair, bind, Except.bind]; rfl⟩

end Pool

-- ---------------------------------------------------------------------------
-- Validation
-- ---------------------------------------------------------------------------

namespace Pool

variable {p : Pool} {i : UInt16} {place : Bytes} {u : Unit}

theorem checkedAt_ok_iff {α : Type} {lookup : Result α} :
    checkedAt place lookup = .ok u ↔ ∃ a, lookup = .ok a := by
  cases lookup <;> simp [checkedAt]

theorem expectTag_ok_iff {want : List Tag} :
    p.expectTag place i want = .ok u ↔ ∃ tag ∈ want, p.HasTag i tag := by
  simp only [hasTag_iff, expectTag]
  cases hget : p.get i with
  | error e => simp
  | ok c =>
    by_cases h : c.tag ∈ want <;> simp [h]

theorem mem_drop_zipIdx {α : Type} {entries : List α} {a : α} {i : Nat} :
    (a, i) ∈ entries.zipIdx.drop 1 ↔ 1 ≤ i ∧ entries[i]? = some a := by
  cases entries with
  | nil => simp
  | cons first rest =>
    rw [List.zipIdx_cons, List.drop_one, List.tail_cons, List.mk_mem_zipIdx_iff_le_and_getElem?_sub]
    refine and_congr_right fun hi => ?_
    rw [List.getElem?_cons, if_neg (by omega)]

/-- The occupied slots are those behind slot zero that hold a constant. -/
theorem forall_occupied_iff {P : Constant → Prop} :
    (∀ slot ∈ p.occupied, P slot.2) ↔ ∀ i c, 1 ≤ i → p.entries[i]? = some (some c) → P c := by
  simp only [occupied, List.mem_filterMap, Option.map_eq_some_iff]
  constructor
  · intro h i c hi hentry
    exact h (UInt16.ofNat i, c) ⟨(some c, i), mem_drop_zipIdx.mpr ⟨hi, hentry⟩, c, rfl, rfl⟩
  · rintro h _ ⟨⟨_, i⟩, hmem, c, rfl, rfl⟩
    obtain ⟨hi, hentry⟩ := mem_drop_zipIdx.mp hmem
    exact h i c hi hentry

end Pool

theorem Constant.isFieldKind_iff {kind : UInt8} :
    (1 ≤ kind ∧ kind ≤ 4) ↔ kind ∈ ([1, 2, 3, 4] : List UInt8) := by
  simp only [UInt8.le_iff_toNat_le, List.mem_cons, ← UInt8.toNat_inj]
  simp
  omega

theorem Constant.mem_referenceTags {kind : UInt8} {tag : Tag} :
    tag ∈ referenceTags kind ↔ MayHandle kind tag := by
  simp only [referenceTags, isFieldKind_iff]
  cases tag <;> grind [MayHandle]

theorem Constant.forall_references_iff {c : Constant} {p : Pool} :
    (∀ reference ∈ c.references, ∃ tag ∈ reference.2, p.HasTag reference.1 tag) ↔ c.Refers p := by
  cases c <;> simp [references, Refers, mem_referenceTags]

namespace ClassFile

variable {c : ClassFile} {p : Pool} {u : Unit}

theorem validatePool_ok_iff : validatePool p = .ok u ↔ p.Valid := by
  simp only [validatePool, Result.forM_ok_iff, Pool.expectTag_ok_iff]
  rw [Pool.Valid, ← Pool.forall_occupied_iff]
  simp only [← Constant.forall_references_iff]

theorem validateIndices_ok_iff (hp : c.pool.Valid) :
    validateIndices c = .ok u ↔ c.pool.HasTag c.thisClass .classRef ∧
      (c.superClass ≠ 0 → c.pool.HasTag c.superClass .classRef) ∧
      ∀ i ∈ c.interfaces, c.pool.HasTag i .classRef := by
  have hclass : ∀ {place i v}, Pool.checkedAt place (c.pool.className i) = .ok v ↔
      c.pool.HasTag i .classRef := Pool.checkedAt_ok_iff.trans hp.exists_className_iff
  have hinterfaces : (forM c.interfaces.zipIdx fun slot =>
      Pool.checkedAt (element (text "interfaces") slot.2) (c.pool.className slot.1)) = .ok u ↔
        ∀ i ∈ c.interfaces, c.pool.HasTag i .classRef :=
    Result.forM_zipIdx_ok_iff fun _ _ => hclass
  by_cases hsuper : c.superClass = 0 <;>
    simp [validateIndices, hasSuper, hsuper, hclass, hinterfaces]

theorem validateAttributes_ok_iff {place : Bytes} {attributes : List Attribute} :
    validateAttributes p place attributes = .ok u ↔ ∀ a ∈ attributes, a.Valid p :=
  Result.forM_zipIdx_ok_iff fun _ _ => Pool.checkedAt_ok_iff.trans Pool.exists_utf8_iff

theorem validateMembers_ok_iff {part : Bytes} {members : List MemberInfo} :
    validateMembers p part members = .ok u ↔ ∀ m ∈ members, m.Valid p := by
  refine Result.forM_zipIdx_ok_iff fun m i => ?_
  simp only [Result.bind_ok_iff, Pool.checkedAt_ok_iff, MemberInfo.name, MemberInfo.descriptor,
    Pool.exists_utf8_iff, validateAttributes_ok_iff]
  constructor
  · rintro ⟨_, hname, _, hdescriptor, hattributes⟩
    exact ⟨hname, hdescriptor, hattributes⟩
  · rintro ⟨hname, hdescriptor, hattributes⟩
    exact ⟨(), hname, (), hdescriptor, hattributes⟩

/-- Validation accepts exactly the valid class files. -/
theorem validate_ok_iff : c.validate = .ok () ↔ c.Valid := by
  simp only [validate, Result.bind_ok_iff, validatePool_ok_iff, validateMembers_ok_iff,
    validateAttributes_ok_iff]
  constructor
  · rintro ⟨_, hpool, _, hindices, _, hfields, _, hmethods, hattributes⟩
    obtain ⟨hthis, hsuper, hinterfaces⟩ := (validateIndices_ok_iff hpool).mp hindices
    exact ⟨hpool, hthis, hsuper, hinterfaces, hfields, hmethods, hattributes⟩
  · intro h
    exact ⟨(), h.pool, (), (validateIndices_ok_iff h.pool).mpr ⟨h.this, h.super, h.interfaces⟩,
      (), h.fields, (), h.methods, h.attributes⟩

end ClassFile
end ClassHeader
