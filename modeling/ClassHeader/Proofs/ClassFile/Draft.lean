import ClassHeader.Proofs.ClassFile.Interned
import ClassHeader.Proofs.ClassFile.RoundTrip

/-!
# Drafting class files

A class file is drafted call by call: constants, attributes and members enter it in any
order, and attributes are made at one time to be put somewhere at another. What a call
stores are indices into a pool that goes on growing. `Draft.run_valid` says that they
are good for the class file in the end: it is valid, it is read back as it was written,
and it reports the names that it was given.
-/

namespace ClassHeader

-- ---------------------------------------------------------------------------
-- Sound pools
-- ---------------------------------------------------------------------------

/-- The constant can be written, and what it refers to is there. -/
def Constant.Sound (p : Pool) (c : Constant) : Prop := c.Refers p ∧ c.Representable

namespace Pool

variable {p q : Pool} {c d : Constant} {texts : List Bytes}

structure Sound (p : Pool) : Prop where
  slotted : Slotted p.entries
  constants : ∀ c, some c ∈ p.entries → c.Sound p

abbrev GrownSoundly (p q : Pool) : Prop := Grown (fun q c => c.Sound q) p q

theorem refers_of_extends (h : p.Extends q) (hc : c.Refers p) : c.Refers q := by
  rw [← Constant.forall_references_iff] at hc ⊢
  intro reference hmem
  obtain ⟨tag, htag, hthere⟩ := hc reference hmem
  exact ⟨tag, htag, hasTag_of_extends h hthere⟩

theorem mem_add (h : some d ∈ (add c p).2.entries) : some d ∈ p.entries ∨ d = c := by
  cases hc : p.find? (some c) with
  | some i =>
    rw [add_of_find? hc] at h
    exact .inl h
  | none =>
    rw [add_of_new hc] at h
    refine (List.mem_append.mp h).imp_right fun hslot => ?_
    rw [slotsOf] at hslot
    split at hslot <;> simpa using hslot

theorem Grown.sound (h : GrownSoundly p q) (hq : q.Addressable) (hp : p.Sound) : q.Sound := by
  induction h with
  | refl => exact hp
  | @add q c _ hallowed ih =>
    have hextends := extends_add c q
    obtain ⟨hslotted, hconstants⟩ := ih (hextends.addressable hq)
    refine ⟨slotted_add hslotted c, fun d hd => ?_⟩
    rcases mem_add hd with hold | rfl
    · exact (hconstants d hold).imp_left (refers_of_extends hextends)
    · exact (hallowed hq).imp_left (refers_of_extends hextends)

theorem Sound.valid (h : p.Sound) : p.Valid :=
  fun _ c _ hentry => (h.constants c (List.mem_of_getElem? hentry)).1

theorem Sound.representable (h : p.Sound) (hp : p.Addressable) : p.Representable where
  count_pos := (List.getElem?_eq_some_iff.mp h.slotted.zero_empty).1
  count_le := hp
  slotted := h.slotted
  constants := by
    rintro entry hmem c rfl
    exact (h.constants c hmem).2

theorem Part.sound (htexts : ∀ t ∈ texts, t.length ≤ 65535) (h : Part texts p c) : c.Sound p := by
  refine ⟨h.1, ?_⟩
  cases c with
  | utf8 v => exact htexts v h.2
  | methodHandle => exact h.2.elim
  | _ => trivial

theorem Enters.soundly {α : Type} {part : StateM Pool α} {look : Pool → Option α}
    (h : Enters (Part texts) (fun _ => True) part look) (htexts : ∀ t ∈ texts, t.length ≤ 65535) :
    Enters (fun q c => c.Sound q) (fun _ => True) part look :=
  h.relax fun _ _ => Part.sound htexts

theorem addUtf8_sound {v : Bytes} (hv : v.length ≤ 65535) (hp : 0 < p.entries.length) :
    GrownSoundly p (addUtf8 v p).2 ∧ (addUtf8 v p).2.utf8Index? v = some (addUtf8 v p).1 :=
  (addUtf8_enters (List.mem_singleton_self v)).soundly (by simpa using hv) p hp trivial

theorem addClass_sound {v : Bytes} (hv : v.length ≤ 65535) (hp : 0 < p.entries.length) :
    GrownSoundly p (addClass v p).2 ∧ (addClass v p).2.classIndex? v = some (addClass v p).1 :=
  (addClass_enters (List.mem_singleton_self v)).soundly (by simpa using hv) p hp trivial

theorem sound_empty : empty.Sound := by
  refine ⟨slotted_empty, fun c hc => ?_⟩
  simp [empty] at hc

end Pool

-- ---------------------------------------------------------------------------
-- Calls
-- ---------------------------------------------------------------------------

/-- A class file that is being put together, with the attributes that were made for it. -/
structure Draft where
  file : ClassFile
  made : List Attribute

namespace Draft

/-- One call on a draft. Made attributes are given by number, and a number that none of them has is
passed over. -/
inductive Call where
  | version (major minor : UInt16)
  | access (flags : AccessFlags)
  | interface (name : Bytes)
  | constant (source : ConstantSource)
  | payload (name info : Bytes)
  | code (c : Code)
  | field (access : AccessFlags) (name descriptor : Bytes) (attributes : List Nat)
  | method (access : AccessFlags) (name descriptor : Bytes) (attributes : List Nat)
  | classAttribute (number : Nat)

/-- Lets a part of the assembly work on the pool. -/
def onPool {α : Type} (d : Draft) (part : Assembly α) : Result (α × Draft) := do
  let (a, file) ← d.file.onPool part
  return (a, { d with file })

def make (d : Draft) (name info : Bytes) : Result Draft := do
  let (a, d) ← d.onPool (AttributeSource.named name info)
  return { d with made := d.made ++ [a] }

def member (d : Draft) (access : AccessFlags) (name descriptor : Bytes) (attributes : List Nat) :
    Result (MemberInfo × Draft) := do
  let (m, d) ← d.onPool (MemberSource.assemble { access, name, descriptor, attributes := [] })
  return ({ m with attributes := attributes.filterMap (d.made[·]?) }, d)

def perform (d : Draft) : Call → Result Draft
  | .version major minor => return { d with file := (← d.file.extend (.version major minor)).2 }
  | .access flags => return { d with file := (← d.file.extend (.access flags)).2 }
  | .interface name => return { d with file := (← d.file.extend (.interface name)).2 }
  | .constant source => return { d with file := (← d.file.extend (.constant source)).2 }
  | .payload name info => d.make name info
  | .code c => do d.make AttributeName.code (← c.encode)
  | .field access name descriptor attributes => do
    let (m, d) ← d.member access name descriptor attributes
    return { d with file := { d.file with fields := d.file.fields ++ [m] } }
  | .method access name descriptor attributes => do
    let (m, d) ← d.member access name descriptor attributes
    return { d with file := { d.file with methods := d.file.methods ++ [m] } }
  | .classAttribute number =>
    return { d with file := {
      d.file with attributes := d.file.attributes ++ d.made[number]?.toList } }

def start (name superName : Bytes) : Draft := { file := .start name superName, made := [] }

def run (name superName : Bytes) (calls : List Call) : Result Draft :=
  calls.foldlM perform (start name superName)

def Call.interface? : Call → Option Bytes
  | .interface name => some name
  | _ => none

/-- The version is known, code can be encoded, and all that the call brings along can be written
down. -/
def Call.Admissible : Call → Prop
  | .version major _ => major ≤ maxMajorVersion
  | .access _ | .classAttribute _ => True
  | .interface name => name.length ≤ 65535
  | .constant source => source.IsSymbolic ∧ ∀ t ∈ source.texts, t.length ≤ 65535
  | .payload name info => name.length ≤ 65535 ∧ info.length < 2 ^ 32
  | .code c => ∃ info ∈ c.encode.toOption, info.length < 2 ^ 32
  | .field _ name descriptor _ | .method _ name descriptor _ =>
    name.length ≤ 65535 ∧ descriptor.length ≤ 65535

instance : DecidablePred Call.Admissible := fun call => by
  unfold Call.Admissible
  split <;> infer_instance

end Draft

@[mk_iff] structure ClassFile.WithinLimits (c : ClassFile) : Prop where
  pool : c.pool.Addressable
  interfaces : c.interfaces.length ≤ 65535
  fields : c.fields.length ≤ 65535
  methods : c.methods.length ≤ 65535
  attributes : c.attributes.length ≤ 65535
  members : ∀ m ∈ c.fields ++ c.methods, m.attributes.length ≤ 65535

instance (c : ClassFile) : Decidable c.WithinLimits :=
  decidable_of_iff _ (ClassFile.withinLimits_iff c).symm

-- ---------------------------------------------------------------------------
-- Sound drafts
-- ---------------------------------------------------------------------------

def Attribute.Sound (p : Pool) (a : Attribute) : Prop := a.Valid p ∧ a.Representable

structure MemberInfo.Sound (p : Pool) (m : MemberInfo) : Prop where
  name : p.HasTag m.nameIndex .utf8
  descriptor : p.HasTag m.descriptorIndex .utf8
  attributes : ∀ a ∈ m.attributes, a.Sound p

/-- All indices of the draft are good for the pool as it is now, and those of classes are of the
names that were asked for. -/
structure Draft.Sound (name superName : Bytes) (interfaces : List Bytes) (d : Draft) : Prop where
  magic : d.file.magic = classMagic
  major : d.file.major ≤ maxMajorVersion
  pool : d.file.pool.Sound
  this : d.file.pool.classIndex? name = some d.file.thisClass
  super : if superName = [] then d.file.superClass = 0
    else d.file.pool.classIndex? superName = some d.file.superClass
  interfaces : List.Forall₂ (fun name i => d.file.pool.classIndex? name = some i) interfaces
    d.file.interfaces
  fields : ∀ m ∈ d.file.fields, m.Sound d.file.pool
  methods : ∀ m ∈ d.file.methods, m.Sound d.file.pool
  attributes : ∀ a ∈ d.file.attributes, a.Sound d.file.pool
  made : ∀ a ∈ d.made, a.Sound d.file.pool

section

variable {p q : Pool}

theorem Attribute.Sound.of_extends {a : Attribute} (hpq : p.Extends q) (h : a.Sound p) :
    a.Sound q :=
  h.imp_left (Pool.hasTag_of_extends hpq)

theorem MemberInfo.Sound.of_extends {m : MemberInfo} (hpq : p.Extends q) (h : m.Sound p) :
    m.Sound q where
  name := Pool.hasTag_of_extends hpq h.name
  descriptor := Pool.hasTag_of_extends hpq h.descriptor
  attributes a ha := (h.attributes a ha).of_extends hpq

end

namespace Draft

variable {name superName descriptor : Bytes} {interfaces : List Bytes} {d d' : Draft} {q : Pool}

def withPool (d : Draft) (q : Pool) : Draft := { d with file := { d.file with pool := q } }

theorem Sound.withPool (h : d.Sound name superName interfaces)
    (hgrown : Pool.GrownSoundly d.file.pool q) (hq : q.Addressable) :
    (d.withPool q).Sound name superName interfaces where
  magic := h.magic
  major := h.major
  pool := hgrown.sound hq h.pool
  this := Pool.Lasting.classIndex? name _ hgrown.extends h.this
  super := by
    have hsuper := h.super
    split_ifs at hsuper ⊢
    · exact hsuper
    · exact Pool.Lasting.classIndex? superName _ hgrown.extends hsuper
  interfaces := h.interfaces.imp fun name i => (Pool.Lasting.classIndex? name i hgrown.extends ·)
  fields m hm := (h.fields m hm).of_extends hgrown.extends
  methods m hm := (h.methods m hm).of_extends hgrown.extends
  attributes a ha := (h.attributes a ha).of_extends hgrown.extends
  made a ha := (h.made a ha).of_extends hgrown.extends

/-- The draft goes on with sound constants only, and is as sound then as it was, with these names
of interfaces more. -/
def Keeps (name superName : Bytes) (interfaces more : List Bytes) (d d' : Draft) : Prop :=
  Pool.GrownSoundly d.file.pool d'.file.pool ∧
    (d'.file.pool.Addressable → d.Sound name superName interfaces →
      d'.Sound name superName (interfaces ++ more))

theorem Keeps.quietly (hgrown : Pool.GrownSoundly d.file.pool d'.file.pool)
    (h : d'.file.pool.Addressable → d.Sound name superName interfaces →
      d'.Sound name superName interfaces) : Keeps name superName interfaces [] d d' := by
  rw [Keeps, List.append_nil]
  exact ⟨hgrown, h⟩

section

variable {info : Bytes} {m : MemberInfo} {access : AccessFlags} {attributes : List Nat}
  (hpos : 0 < d.file.pool.entries.length)

include hpos

theorem make_keeps {made : Bytes} (hmade : made.length ≤ 65535) (hinfo : info.length < 2 ^ 32)
    (h : d.make made info = .ok d') : Keeps name superName interfaces [] d d' := by
  obtain ⟨hgrown, hindex⟩ := Pool.addUtf8_sound hmade hpos
  cases h
  refine .quietly hgrown fun hq hd => ?_
  have hsame := hd.withPool hgrown hq
  have hnew : Attribute.Sound (Pool.addUtf8 made d.file.pool).2
      ⟨(Pool.addUtf8 made d.file.pool).1, info⟩ := ⟨Pool.hasTag_of_find? hq hindex, hinfo⟩
  exact { hsame with
    made := List.forall_mem_append.mpr ⟨hsame.made, List.forall_mem_singleton.mpr hnew⟩ }

theorem member_keeps {own : Bytes} (hown : own.length ≤ 65535)
    (hdescriptor : descriptor.length ≤ 65535)
    (h : d.member access own descriptor attributes = .ok (m, d')) :
    Pool.GrownSoundly d.file.pool d'.file.pool ∧ (d'.file.pool.Addressable →
      ∀ {name superName interfaces}, d.Sound name superName interfaces →
        d'.Sound name superName interfaces ∧ m.Sound d'.file.pool) := by
  obtain ⟨hgrown, hindex⟩ := Pool.addUtf8_sound hown hpos
  obtain ⟨hgrown', hindex'⟩ := Pool.addUtf8_sound hdescriptor (hgrown.extends.pos hpos)
  cases h
  refine ⟨hgrown.trans hgrown', fun hq _ _ _ hd => ?_⟩
  have hq₁ := hgrown'.extends.addressable hq
  have hsame := hd.withPool (hgrown.trans hgrown') hq
  refine ⟨hsame, ?_, Pool.hasTag_of_find? hq hindex', fun a ha => ?_⟩
  · exact Pool.hasTag_of_extends hgrown'.extends (Pool.hasTag_of_find? hq₁ hindex)
  · obtain ⟨number, -, ha⟩ := List.mem_filterMap.mp ha
    exact hsame.made a (List.mem_of_getElem? ha)

theorem perform_keeps {call : Call} (hcall : call.Admissible) (h : d.perform call = .ok d') :
    Keeps name superName interfaces call.interface?.toList d d' := by
  cases call with
  | version major minor =>
    cases h
    exact .quietly .refl fun _ hd => { hd with major := hcall }
  | access flags =>
    cases h
    exact .quietly .refl fun _ hd => { hd with }
  | interface added =>
    obtain ⟨hgrown, hindex⟩ := Pool.addClass_sound hcall hpos
    cases h
    refine ⟨hgrown, fun hq hd => ?_⟩
    have hsame := hd.withPool hgrown hq
    exact { hsame with interfaces := List.rel_append hsame.interfaces (.cons hindex .nil) }
  | constant source =>
    obtain ⟨hsymbolic, htexts⟩ := hcall
    obtain ⟨hgrown, -⟩ := (Pool.addSource_enters hsymbolic).soundly htexts _ hpos trivial
    cases h
    exact .quietly hgrown fun hq hd => hd.withPool hgrown hq
  | payload made info => exact make_keeps hpos hcall.1 hcall.2 h
  | code c =>
    obtain ⟨info, hinfo, hlength⟩ := hcall
    obtain ⟨made, hmade, h⟩ := Result.bind_ok_iff.mp h
    rw [hmade] at hinfo
    cases hinfo
    exact make_keeps hpos (by decide) hlength h
  | field access own descriptor attributes =>
    obtain ⟨⟨m, d₁⟩, hm, h⟩ := Result.bind_ok_iff.mp h
    obtain ⟨hgrown, hkeep⟩ := member_keeps hpos hcall.1 hcall.2 hm
    obtain rfl := Result.pure_ok_iff.mp h
    refine .quietly hgrown fun hq hd => ?_
    obtain ⟨hsame, hnew⟩ := hkeep hq hd
    exact { hsame with
      fields := List.forall_mem_append.mpr ⟨hsame.fields, List.forall_mem_singleton.mpr hnew⟩ }
  | method access own descriptor attributes =>
    obtain ⟨⟨m, d₁⟩, hm, h⟩ := Result.bind_ok_iff.mp h
    obtain ⟨hgrown, hkeep⟩ := member_keeps hpos hcall.1 hcall.2 hm
    obtain rfl := Result.pure_ok_iff.mp h
    refine .quietly hgrown fun hq hd => ?_
    obtain ⟨hsame, hnew⟩ := hkeep hq hd
    exact { hsame with
      methods := List.forall_mem_append.mpr ⟨hsame.methods, List.forall_mem_singleton.mpr hnew⟩ }
  | classAttribute number =>
    cases h
    refine .quietly .refl fun hq hd => { hd with attributes := ?_ }
    refine List.forall_mem_append.mpr ⟨hd.attributes, fun a ha => ?_⟩
    exact hd.made a (List.mem_of_getElem? (Option.mem_toList.mp ha))

end

theorem Keeps.trans {more more' : List Bytes} {d₁ : Draft}
    (h : Keeps name superName interfaces more d d₁)
    (h' : Keeps name superName (interfaces ++ more) more' d₁ d') :
    Keeps name superName interfaces (more ++ more') d d' := by
  obtain ⟨hgrown, hkeep⟩ := h
  obtain ⟨hgrown', hkeep'⟩ := h'
  refine ⟨hgrown.trans hgrown', fun hq hd => ?_⟩
  rw [← List.append_assoc]
  exact hkeep' hq (hkeep (hgrown'.extends.addressable hq) hd)

/-- What a sequence of calls preserves: by induction on the calls, whose names of interfaces are
put one behind the other. -/
theorem foldlM_keeps {calls : List Call} (hpos : 0 < d.file.pool.entries.length)
    (hcalls : ∀ call ∈ calls, call.Admissible) (h : calls.foldlM perform d = .ok d') :
    Keeps name superName interfaces (calls.filterMap Call.interface?) d d' := by
  induction calls generalizing d interfaces with
  | nil =>
    cases h
    exact .quietly .refl fun _ hd => hd
  | cons call calls ih =>
    rw [List.foldlM_cons, Result.bind_ok_iff] at h
    obtain ⟨d₁, hfirst, hrest⟩ := h
    obtain ⟨hcall, hcalls⟩ := List.forall_mem_cons.mp hcalls
    have hmore : (call :: calls).filterMap Call.interface? =
        call.interface?.toList ++ calls.filterMap Call.interface? := by
      cases hname : call.interface? <;> simp [hname]
    have hkeep : Keeps name superName interfaces call.interface?.toList d d₁ :=
      perform_keeps hpos hcall hfirst
    rw [hmore]
    exact hkeep.trans (ih (hkeep.1.extends.pos hpos) hcalls hrest)

theorem exists_perform {call : Call} (hcall : call.Admissible) (d : Draft) :
    ∃ d', d.perform call = .ok d' := by
  cases call with
  | code c =>
    obtain ⟨info, hinfo, -⟩ := hcall
    cases h : c.encode with
    | error e => simp [h, Except.toOption] at hinfo
    | ok made => exact ⟨_, by rw [perform, h]; rfl⟩
  | _ => exact ⟨_, rfl⟩

theorem exists_foldlM {calls : List Call} (hcalls : ∀ call ∈ calls, call.Admissible) (d : Draft) :
    ∃ d', calls.foldlM perform d = .ok d' := by
  induction calls generalizing d with
  | nil => exact ⟨d, rfl⟩
  | cons call calls ih =>
    obtain ⟨hcall, hcalls⟩ := List.forall_mem_cons.mp hcalls
    obtain ⟨d₁, hfirst⟩ := exists_perform hcall d
    obtain ⟨d', hrest⟩ := ih hcalls d₁
    exact ⟨d', by rw [List.foldlM_cons, hfirst]; exact hrest⟩

def bare (p : Pool) (thisClass superClass : UInt16) : Draft where
  file := {
    magic := classMagic, minor := 0, major := 52, pool := p
    access := AccessFlags.isPublic ||| AccessFlags.isSuper, thisClass, superClass
    interfaces := [], fields := [], methods := [], attributes := [] }
  made := []

theorem bare_sound {p : Pool} {thisClass superClass : UInt16} (hp : p.Sound)
    (hthis : p.classIndex? name = some thisClass)
    (hsuper : if superName = [] then superClass = 0
      else p.classIndex? superName = some superClass) :
    (bare p thisClass superClass).Sound name superName [] where
  magic := rfl
  major := show (52 : UInt16) ≤ maxMajorVersion by decide
  pool := hp
  this := hthis
  super := hsuper
  interfaces := .nil
  fields := nofun
  methods := nofun
  attributes := nofun
  made := nofun

theorem start_root (name : Bytes) : start name [] =
    bare (Pool.addClass name .empty).2 (Pool.addClass name .empty).1 0 := by
  unfold start ClassFile.start
  generalize Pool.addClass name = own
  rfl

theorem start_derived (h : superName ≠ []) : start name superName =
    bare (Pool.addClass superName (Pool.addClass name .empty).2).2 (Pool.addClass name .empty).1
      (Pool.addClass superName (Pool.addClass name .empty).2).1 := by
  simp only [start, ClassFile.start, if_neg h]
  generalize Pool.addClass name = own, Pool.addClass superName = base
  rfl

theorem start_sound (hname : name.length ≤ 65535) (hsuper : superName.length ≤ 65535) :
    Pool.GrownSoundly .empty (start name superName).file.pool ∧
      ((start name superName).file.pool.Addressable →
        (start name superName).Sound name superName []) := by
  have hempty : 0 < Pool.empty.entries.length := by decide
  obtain ⟨hgrown, hthis⟩ := Pool.addClass_sound hname hempty
  by_cases hroot : superName = []
  · rw [hroot, start_root]
    exact ⟨hgrown, fun hq => bare_sound (hgrown.sound hq Pool.sound_empty) hthis rfl⟩
  · obtain ⟨hgrown', hindex⟩ := Pool.addClass_sound hsuper (hgrown.extends.pos hempty)
    rw [start_derived hroot]
    refine ⟨hgrown.trans hgrown', fun hq => bare_sound ?_ ?_ ?_⟩
    · exact (hgrown.trans hgrown').sound hq Pool.sound_empty
    · exact Pool.Lasting.classIndex? name _ hgrown'.extends hthis
    · rwa [if_neg hroot]

-- ---------------------------------------------------------------------------
-- Finished drafts
-- ---------------------------------------------------------------------------

theorem Sound.valid (h : d.Sound name superName interfaces) (hp : d.file.pool.Addressable) :
    d.file.Valid where
  pool := h.pool.valid
  this := Pool.hasTag_of_classIndex? hp h.this
  super hne := by
    have hsuper := h.super
    split_ifs at hsuper
    · exact absurd hsuper hne
    · exact Pool.hasTag_of_classIndex? hp hsuper
  interfaces i hi := by
    obtain ⟨_, _, hindex⟩ := Result.exists_of_forall₂ h.interfaces.flip hi
    exact Pool.hasTag_of_classIndex? hp hindex
  fields m hm :=
    have hsound := h.fields m hm
    ⟨hsound.name, hsound.descriptor, fun a ha => (hsound.attributes a ha).1⟩
  methods m hm :=
    have hsound := h.methods m hm
    ⟨hsound.name, hsound.descriptor, fun a ha => (hsound.attributes a ha).1⟩
  attributes a ha := (h.attributes a ha).1

theorem Sound.representable (h : d.Sound name superName interfaces)
    (hlimits : d.file.WithinLimits) : d.file.Representable where
  magic := h.magic
  major := h.major
  pool := h.pool.representable hlimits.pool
  interfaces := hlimits.interfaces
  fields := ⟨hlimits.fields, fun m hm => ⟨hlimits.members m (List.mem_append_left _ hm),
    fun a ha => ((h.fields m hm).attributes a ha).2⟩⟩
  methods := ⟨hlimits.methods, fun m hm => ⟨hlimits.members m (List.mem_append_right _ hm),
    fun a ha => ((h.methods m hm).attributes a ha).2⟩⟩
  attributes := ⟨hlimits.attributes, fun a ha => (h.attributes a ha).2⟩

theorem Sound.superName_ok (h : d.Sound name superName interfaces)
    (hp : d.file.pool.Addressable) : d.file.superName = .ok superName := by
  have hsuper := h.super
  unfold ClassFile.superName ClassFile.hasSuper
  split_ifs at hsuper with hroot
  · simp [hroot, hsuper]
  · have hne := (Pool.hasTag_of_classIndex? hp hsuper).1
    simp [hne, Pool.className_of_index? hp hsuper]

theorem Sound.interfaceNames_ok (h : d.Sound name superName interfaces)
    (hp : d.file.pool.Addressable) : d.file.interfaceNames = .ok interfaces :=
  Result.mapM_ok_iff.mpr (h.interfaces.flip.imp fun _ _ => Pool.className_of_index? hp)

/-- Whatever the calls and their order, a class file comes of them, and while its counts fit it is
valid, is read back as it was written, and has the names that it was given. -/
theorem run_valid {calls : List Call} (hname : name.length ≤ 65535)
    (hsuper : superName.length ≤ 65535) (hcalls : ∀ call ∈ calls, call.Admissible) :
    ∃ d, run name superName calls = .ok d ∧ (d.file.WithinLimits →
      d.file.validate = .ok () ∧ ClassFile.decode d.file.encode = .ok d.file ∧
        d.file.name = .ok name ∧ d.file.superName = .ok superName ∧
        d.file.interfaceNames = .ok (calls.filterMap Call.interface?)) := by
  obtain ⟨d, h⟩ := exists_foldlM hcalls (start name superName)
  refine ⟨d, h, fun hlimits => ?_⟩
  obtain ⟨hgrown, hstart⟩ := start_sound hname hsuper
  have hkeep : Keeps name superName [] (calls.filterMap Call.interface?) _ d :=
    foldlM_keeps (hgrown.extends.pos (by decide)) hcalls h
  have hp := hlimits.pool
  have hd := hkeep.2 hp (hstart (hkeep.1.extends.addressable hp))
  refine ⟨ClassFile.validate_ok_iff.mpr (hd.valid hp), ?_, Pool.className_of_index? hp hd.this,
    hd.superName_ok hp, hd.interfaceNames_ok hp⟩
  exact ClassFile.decodeFrom_ok_iff.mpr ⟨hd.representable hlimits, rfl⟩

def mingled : List Call :=
  [.payload (text "X") [1, 2], .interface (text "I"), .version 65 3, .constant (.long 5),
    .code {
      maxStack := 0, maxLocals := 1, code := [0xb1], instructions := [], handlers := []
      attributes := [] },
    .field 2 (text "f") (text "J") [0], .interface (text "J"),
    .method 1 (text "m") (text "()V") [1, 0], .access 0x21, .classAttribute 0]

theorem run_valid_mingled : ∃ d, run (text "A") (text "B") mingled = .ok d ∧
    d.file.WithinLimits ∧ d.file.validate = .ok () ∧
      ClassFile.decode d.file.encode = .ok d.file ∧
      d.file.interfaceNames = .ok [text "I", text "J"] := by
  have hcalls : ∀ call ∈ mingled, call.Admissible := by decide +kernel
  have hlimits : (run (text "A") (text "B") mingled).toOption.any
      (decide <| ClassFile.WithinLimits ·.file) = true := by decide +kernel
  obtain ⟨d, hrun, hd⟩ : ∃ d, run (text "A") (text "B") mingled = .ok d ∧ _ :=
    run_valid (by decide) (by decide) hcalls
  rw [hrun] at hlimits
  have hlimits : d.file.WithinLimits := of_decide_eq_true hlimits
  obtain ⟨hvalid, hback, -, -, hinterfaces⟩ := hd hlimits
  exact ⟨d, hrun, hlimits, hvalid, hback, hinterfaces⟩

end Draft

end ClassHeader
