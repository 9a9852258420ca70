import ClassHeader.ClassFile.Assemble
import ClassHeader.Proofs.ClassFile.Representable
import ClassHeader.Proofs.ClassFile.Valid

/-!
# Entering constants into a pool

A pool only grows at its end, and a constant enters it once. So an index stays what it
was when it was given out: `Pool.Holds` says of an index that it is the one of a
requested constant and that the lookups give back the texts of the request, and
`Pool.addSource_interned` that it holds from the request on, whatever is requested before
and behind it. Whether constants are looked up in the pool or in a table that is kept
beside it makes no difference (`Pool.Indexed`).
-/

namespace ClassHeader
namespace Pool

-- ---------------------------------------------------------------------------
-- Growing
-- ---------------------------------------------------------------------------

/-- Each slot has an index. -/
def Addressable (p : Pool) : Prop := p.entries.length ≤ 65535

instance (p : Pool) : Decidable p.Addressable :=
  inferInstanceAs (Decidable (p.entries.length ≤ 65535))

def Extends (p q : Pool) : Prop := p.entries <+: q.entries

section

variable {p q s : Pool} {c d : Constant} {entry : Option Constant} {i : UInt16}

theorem Extends.refl (p : Pool) : p.Extends p := List.prefix_rfl

theorem Extends.trans (h : p.Extends q) (h' : q.Extends s) : p.Extends s := List.IsPrefix.trans h h'

theorem Extends.addressable (h : p.Extends q) (hq : q.Addressable) : p.Addressable :=
  h.length_le.trans hq

theorem Extends.pos (h : p.Extends q) (hp : 0 < p.entries.length) : 0 < q.entries.length :=
  hp.trans_le h.length_le

theorem get_of_extends (h : p.Extends q) (hget : p.get i = .ok c) : q.get i = .ok c := by
  obtain ⟨hne, hentry⟩ := get_ok_iff.mp hget
  obtain ⟨more, hmore⟩ := h
  refine get_ok_iff.mpr ⟨hne, ?_⟩
  rw [← hmore, List.getElem?_append_left (List.getElem?_eq_some_iff.mp hentry).1, hentry]

theorem hasTag_of_extends {tag : Tag} (h : p.Extends q) (htag : p.HasTag i tag) :
    q.HasTag i tag := by
  obtain ⟨c, hget, hc⟩ := hasTag_iff.mp htag
  exact hasTag_iff.mpr ⟨c, get_of_extends h hget, hc⟩

theorem find?_append (hp : 0 < p.entries.length) (more : List (Option Constant)) :
    find? ⟨p.entries ++ more⟩ entry = (p.find? entry).or
      (((more.zipIdx p.entries.length).find? (·.1 = entry)).map fun found => .ofNat found.2) := by
  simp only [find?, List.zipIdx_append, Nat.zero_add]
  rw [List.drop_append_of_le_length (by rwa [List.length_zipIdx]), List.find?_append, Option.map_or]

theorem find?_of_extends (h : p.Extends q) (hfind : p.find? entry = some i) :
    q.find? entry = some i := by
  obtain ⟨more, hmore⟩ := h
  have hp : 0 < p.entries.length := by
    by_contra hzero
    have hnil : p.entries = [] := List.length_eq_zero_iff.mp (by omega)
    simp [find?, hnil] at hfind
  obtain rfl : q = ⟨p.entries ++ more⟩ := by rw [hmore]
  rw [find?_append hp, hfind, Option.some_or]

theorem get_of_find? (hp : p.Addressable) (h : p.find? (some c) = some i) : p.get i = .ok c := by
  simp only [find?, Option.map_eq_some_iff] at h
  obtain ⟨⟨entry, n⟩, hfound, rfl⟩ := h
  obtain ⟨hn, hentry⟩ := mem_drop_zipIdx.mp (List.mem_of_find?_eq_some hfound)
  obtain rfl : entry = some c := by simpa using List.find?_some hfound
  have hlt : n < p.entries.length := (List.getElem?_eq_some_iff.mp hentry).1
  have htoNat : (UInt16.ofNat n).toNat = n := by
    rw [UInt16.toNat_ofNat', Nat.mod_eq_of_lt (by unfold Addressable at hp; omega)]
  refine get_ok_iff.mpr ⟨fun hzero => ?_, by rwa [htoNat]⟩
  rw [hzero, UInt16.toNat_zero] at htoNat
  omega

theorem hasTag_of_find? (hp : p.Addressable) (h : p.find? (some c) = some i) :
    p.HasTag i c.tag :=
  hasTag_iff.mpr ⟨c, get_of_find? hp h, rfl⟩

def slotsOf (c : Constant) : List (Option Constant) := some c :: if c.isWide then [none] else []

theorem add_of_find? (h : p.find? (some c) = some i) : add c p = (i, p) := by
  rw [add, h]

theorem add_of_new (h : p.find? (some c) = none) :
    add c p = (.ofNat p.entries.length, ⟨p.entries ++ slotsOf c⟩) := by
  rw [add, h]
  rfl

theorem extends_add (c : Constant) (p : Pool) : p.Extends (add c p).2 := by
  cases h : p.find? (some c) with
  | some i =>
    rw [add_of_find? h]
    exact .refl p
  | none =>
    rw [add_of_new h]
    exact List.prefix_append _ _

theorem find?_add (hp : 0 < p.entries.length) (c : Constant) :
    (add c p).2.find? (some c) = some (add c p).1 := by
  cases h : p.find? (some c) with
  | some i => rw [add_of_find? h, h]
  | none =>
    rw [add_of_new h, find?_append hp, h, Option.none_or, slotsOf, List.zipIdx_cons]
    simp

/-- Adding moves nothing else: other constants are found where they were found before. -/
theorem find?_add_of_ne (hp : 0 < p.entries.length) (h : d ≠ c) :
    (add c p).2.find? (some d) = p.find? (some d) := by
  cases hc : p.find? (some c) with
  | some i => rw [add_of_find? hc]
  | none =>
    have hnew : ((slotsOf c).zipIdx p.entries.length).find? (·.1 = some d) = none := by
      rw [slotsOf]
      split <;> simp [Ne.symm h]
    rw [add_of_new hc, find?_append hp, hnew, Option.map_none, Option.or_none]

theorem Filled.append {rest more : List (Option Constant)} (h : Filled rest) (h' : Filled more) :
    Filled (rest ++ more) := by
  induction h with
  | nil => exact h'
  | narrow hc _ ih => exact .narrow hc ih
  | wide hc _ ih => exact .wide hc ih

theorem slotted_add (h : Slotted p.entries) (c : Constant) : Slotted (add c p).2.entries := by
  cases hc : p.find? (some c) with
  | some i => rwa [add_of_find? hc]
  | none =>
    obtain ⟨rest, hrest, hfilled⟩ := slotted_iff.mp h
    have hslots : Filled (slotsOf c) := by
      cases hwide : c.isWide <;> simp only [slotsOf, hwide]
      · exact .narrow hwide .nil
      · exact .wide hwide .nil
    have hmore : p.entries ++ slotsOf c = none :: (rest ++ slotsOf c) := by
      rw [hrest, List.cons_append]
    rw [add_of_new hc]
    exact slotted_iff.mpr ⟨_, hmore, hfilled.append hslots⟩

end

-- ---------------------------------------------------------------------------
-- Parts of an assembly
-- ---------------------------------------------------------------------------

/-- The pool came about by adding one constant after the other, each of which was allowed in the
pool that it was added to. -/
inductive Grown (allowed : Pool → Constant → Prop) (p : Pool) : Pool → Prop
  | refl : Grown allowed p p
  | add {q : Pool} {c : Constant} (h : Grown allowed p q)
    (hallowed : (add c q).2.Addressable → allowed q c) : Grown allowed p (add c q).2

/-- Once it is true of a pool it stays true. -/
def Lasting (P : Pool → Prop) : Prop := ∀ ⦃p q : Pool⦄, p.Extends q → P p → P q

/-- From a pool of which `pre` holds, the part of an assembly adds allowed constants only, and
gives what `look` finds in the pool afterwards. -/
def Enters {α : Type} (allowed : Pool → Constant → Prop) (pre : Pool → Prop)
    (part : StateM Pool α) (look : Pool → Option α) : Prop :=
  ∀ p : Pool, 0 < p.entries.length → pre p →
    Grown allowed p (part p).2 ∧ look (part p).2 = some (part p).1

section

variable {allowed allowed' : Pool → Constant → Prop} {p q s : Pool} {c : Constant}

theorem Grown.trans (h : Grown allowed p q) (h' : Grown allowed q s) : Grown allowed p s := by
  induction h' with
  | refl => exact h
  | add _ hallowed ih => exact .add ih hallowed

theorem Grown.mono (h : Grown allowed p q) (himp : ∀ q c, allowed q c → allowed' q c) :
    Grown allowed' p q := by
  induction h with
  | refl => exact .refl
  | add _ hallowed ih => exact .add ih fun hq => himp _ _ (hallowed hq)

theorem Grown.extends (h : Grown allowed p q) : p.Extends q := by
  induction h with
  | refl => exact .refl p
  | add _ _ ih => exact ih.trans (extends_add _ _)

theorem Grown.slotted (h : Grown allowed p q) (hp : Slotted p.entries) : Slotted q.entries := by
  induction h with
  | refl => exact hp
  | add _ _ ih => exact slotted_add ih _

variable {α β : Type} {pre pre' : Pool → Prop} {part : StateM Pool α} {look : Pool → Option α}
  {next : α → StateM Pool β} {look' : α → Pool → Option β}

theorem Lasting.true : Lasting fun _ => True := fun _ _ _ _ => trivial

theorem Lasting.and {P P' : Pool → Prop} (h : Lasting P) (h' : Lasting P') :
    Lasting fun p => P p ∧ P' p := fun _ _ hpq hP => ⟨h hpq hP.1, h' hpq hP.2⟩

theorem Lasting.find? (entry : Option Constant) (i : UInt16) :
    Lasting (Pool.find? · entry = some i) := fun _ _ => find?_of_extends

theorem Lasting.bind {b : β} (hlook : ∀ a, Lasting (look · = some a))
    (hnext : ∀ a, Lasting (look' a · = some b)) :
    Lasting fun p => look p >>= (look' · p) = some b := by
  intro p q hpq h
  obtain ⟨a, ha, hb⟩ := Option.bind_eq_some_iff.mp h
  exact Option.bind_eq_some_iff.mpr ⟨a, hlook a hpq ha, hnext a hpq hb⟩

theorem Enters.weaken (h : Enters allowed pre part look) (hpre : ∀ p, pre' p → pre p) :
    Enters allowed pre' part look :=
  fun p hp hpre' => h p hp (hpre p hpre')

theorem Enters.relax (h : Enters allowed pre part look)
    (himp : ∀ q c, allowed q c → allowed' q c) : Enters allowed' pre part look :=
  fun p hp hpre => (h p hp hpre).imp_left (·.mono himp)

theorem Enters.pure (a : α) : Enters allowed pre (pure a) fun _ => some a :=
  fun _ _ _ => ⟨.refl, rfl⟩

theorem Enters.add (h : ∀ p, p.Addressable → pre p → allowed p c) :
    Enters allowed pre (Pool.add c) (Pool.find? · (some c)) := by
  intro p hp hpre
  refine ⟨.add .refl fun hq => h p ((extends_add c p).addressable hq) hpre, find?_add hp c⟩

theorem Enters.bind (hpre : Lasting pre) (hlook : ∀ a, Lasting (look · = some a))
    (hpart : Enters allowed pre part look)
    (hnext : ∀ a, Enters allowed (fun p => pre p ∧ look p = some a) (next a) (look' a)) :
    Enters allowed pre (part >>= next) fun p => look p >>= (look' · p) := by
  intro p hp hpre₀
  obtain ⟨hgrown, hfound⟩ := hpart p hp hpre₀
  obtain ⟨hgrown', hfound'⟩ := hnext (part p).1 (part p).2 (hgrown.extends.pos hp)
    ⟨hpre hgrown.extends hpre₀, hfound⟩
  refine ⟨hgrown.trans hgrown', ?_⟩
  exact Option.bind_eq_some_iff.mpr ⟨_, hlook _ hgrown'.extends hfound, hfound'⟩

end

-- ---------------------------------------------------------------------------
-- Tables of indices
-- ---------------------------------------------------------------------------

/-- A pool beside a table of the indices that were given out for it. -/
structure Indexed where
  pool : Pool
  index : Constant → Option UInt16

namespace Indexed

def empty : Indexed where
  pool := .empty
  index _ := none

/-- The index of a constant by the table. A new constant enters both the pool and the table. -/
def add (c : Constant) : StateM Indexed UInt16 := fun b =>
  match b.index c with
  | some i => (i, b)
  | none =>
    let i := UInt16.ofNat b.pool.entries.length
    (i, ⟨⟨b.pool.entries ++ slotsOf c⟩, Function.update b.index c (some i)⟩)

def addSource (source : ConstantSource) : StateM Indexed UInt16 := source.enter add

structure InStep (b : Indexed) : Prop where
  pos : 0 < b.pool.entries.length
  index_eq : ∀ c, b.index c = b.pool.find? (some c)

theorem empty_inStep : empty.InStep := ⟨by decide, fun _ => rfl⟩

/-- While the table is in step, `part'` gives with the table what `part` gives without, and keeps
the table in step. -/
def Follows {α : Type} (part : StateM Pool α) (part' : StateM Indexed α) : Prop :=
  ∀ b : Indexed, b.InStep →
    part.run b.pool = ((part'.run b).1, (part'.run b).2.pool) ∧ (part'.run b).2.InStep

variable {α β : Type} {part : StateM Pool α} {part' : StateM Indexed α}

theorem Follows.pure (a : α) : Follows (pure a) (pure a) := fun _ hb => ⟨rfl, hb⟩

theorem Follows.bind {next : α → StateM Pool β} {next' : α → StateM Indexed β}
    (hpart : Follows part part') (hnext : ∀ a, Follows (next a) (next' a)) :
    Follows (part >>= next) (part' >>= next') := by
  intro b hb
  obtain ⟨hfirst, hb'⟩ := hpart b hb
  obtain ⟨hrest, hlast⟩ := hnext (part'.run b).1 (part'.run b).2 hb'
  refine ⟨?_, hlast⟩
  rw [StateT.run_bind, hfirst]
  exact hrest

theorem Follows.mapM {step : α → StateM Pool β} {step' : α → StateM Indexed β}
    (h : ∀ a, Follows (step a) (step' a)) (as : List α) :
    Follows (as.mapM step) (as.mapM step') := by
  induction as with
  | nil => exact .pure []
  | cons a as ih =>
    rw [List.mapM_cons, List.mapM_cons]
    exact .bind (h a) fun b => .bind ih fun bs => .pure (b :: bs)

theorem add_follows (c : Constant) : Follows (Pool.add c) (add c) := by
  intro b hb
  cases hc : b.index c with
  | some i =>
    have hadd : (add c).run b = (i, b) := by rw [StateT.run, add, hc]
    rw [hadd, StateT.run, add_of_find? ((hb.index_eq c).symm.trans hc)]
    exact ⟨rfl, hb⟩
  | none =>
    have hnew : (Pool.add c).run b.pool = (((add c).run b).1, ((add c).run b).2.pool) := by
      rw [StateT.run, add_of_new ((hb.index_eq c).symm.trans hc), StateT.run, add, hc]
    have hpool : ((add c).run b).2.pool = (Pool.add c b.pool).2 := congrArg Prod.snd hnew.symm
    have hindex : ((add c).run b).2.index =
        Function.update b.index c (some (Pool.add c b.pool).1) := by
      rw [show Pool.add c b.pool = _ from hnew, StateT.run, add, hc]
    refine ⟨hnew, ?_, fun d => ?_⟩
    · rw [hpool]
      exact (extends_add c b.pool).pos hb.pos
    · rw [hindex, hpool]
      by_cases hd : d = c
      · rw [hd, Function.update_self, find?_add hb.pos]
      · rw [Function.update_of_ne hd, find?_add_of_ne hb.pos hd, hb.index_eq d]

theorem enterUtf8_follows (value : Bytes) :
    Follows (addUtf8 value) (ConstantSource.enterUtf8 add value) := add_follows _

theorem enterNameAndType_follows (name descriptor : Bytes) :
    Follows (addNameAndType name descriptor)
      (ConstantSource.enterNameAndType add name descriptor) :=
  .bind (enterUtf8_follows name) fun _ => .bind (enterUtf8_follows descriptor) fun _ =>
    add_follows _

theorem enterMember_follows (m : Member) :
    Follows (addMember m) (ConstantSource.enterMember add m) :=
  .bind (.bind (enterUtf8_follows m.owner) fun _ => add_follows _) fun _ =>
    .bind (enterNameAndType_follows m.name m.descriptor) fun _ => .pure _

theorem addSource_follows (source : ConstantSource) :
    Follows (Pool.addSource source) (addSource source) := by
  cases source with
  | utf8 | integer | float | long | double | methodHandle | ready => exact add_follows _
  | classRef v | string v | methodType v | moduleRef v | packageRef v =>
    exact .bind (enterUtf8_follows v) fun _ => add_follows _
  | nameAndType name descriptor => exact enterNameAndType_follows name descriptor
  | dynamic _ name descriptor | invokeDynamic _ name descriptor =>
    exact .bind (enterNameAndType_follows name descriptor) fun _ => add_follows _
  | fieldRef m | methodRef m | interfaceMethodRef m =>
    exact .bind (enterMember_follows m) fun _ => add_follows _

theorem InStep.exists_run {b : Indexed} (hb : b.InStep) {calls : List ConstantSource}
    {is : List UInt16} {p : Pool} (h : (calls.mapM Pool.addSource).run b.pool = (is, p)) :
    ∃ b', (calls.mapM addSource).run b = (is, b') ∧ b'.pool = p ∧ b'.InStep := by
  obtain ⟨hrun, hstep⟩ := Follows.mapM addSource_follows calls b hb
  obtain ⟨rfl, hpool⟩ := Prod.mk.inj (hrun.symm.trans h)
  exact ⟨_, rfl, hpool, hstep⟩

end Indexed

-- ---------------------------------------------------------------------------
-- The constants of symbolic sources
-- ---------------------------------------------------------------------------

def utf8Index? (p : Pool) (value : Bytes) : Option UInt16 := p.find? (some (.utf8 value))

def classIndex? (p : Pool) (name : Bytes) : Option UInt16 := do
  p.find? (some (.classRef (← p.utf8Index? name)))

def nameAndTypeIndex? (p : Pool) (name descriptor : Bytes) : Option UInt16 := do
  let nameIndex ← p.utf8Index? name
  let descriptorIndex ← p.utf8Index? descriptor
  p.find? (some (.nameAndType nameIndex descriptorIndex))

def memberIndices? (p : Pool) (m : Member) : Option (UInt16 × UInt16) := do
  let owner ← p.classIndex? m.owner
  let nat ← p.nameAndTypeIndex? m.name m.descriptor
  return (owner, nat)

end Pool

/-- The texts that the constant is made of are among these, and it is no handle of a method. -/
def Constant.DrawnFrom (texts : List Bytes) : Constant → Prop
  | .utf8 value => value ∈ texts
  | .methodHandle _ _ => False
  | _ => True

namespace ConstantSource

def constant? (p : Pool) : ConstantSource → Option Constant
  | .utf8 value => return .utf8 value
  | .integer value => return .integer value
  | .float bits => return .float bits
  | .long value => return .long (splitWord value).1 (splitWord value).2
  | .double bits => return .double (splitWord bits).1 (splitWord bits).2
  | .classRef name => return .classRef (← p.utf8Index? name)
  | .string value => return .string (← p.utf8Index? value)
  | .nameAndType name descriptor =>
    return .nameAndType (← p.utf8Index? name) (← p.utf8Index? descriptor)
  | .fieldRef m => do let (owner, nat) ← p.memberIndices? m; return .fieldRef owner nat
  | .methodRef m => do let (owner, nat) ← p.memberIndices? m; return .methodRef owner nat
  | .interfaceMethodRef m => do
    let (owner, nat) ← p.memberIndices? m
    return .interfaceMethodRef owner nat
  | .methodHandle kind reference => return .methodHandle kind reference
  | .methodType descriptor => return .methodType (← p.utf8Index? descriptor)
  | .dynamic bootstrap name descriptor =>
    return .dynamic bootstrap (← p.nameAndTypeIndex? name descriptor)
  | .invokeDynamic bootstrap name descriptor =>
    return .invokeDynamic bootstrap (← p.nameAndTypeIndex? name descriptor)
  | .moduleRef name => return .moduleRef (← p.utf8Index? name)
  | .packageRef name => return .packageRef (← p.utf8Index? name)
  | .ready c => return c

def index? (p : Pool) (source : ConstantSource) : Option UInt16 := do
  p.find? (some (← source.constant? p))

def texts : ConstantSource → List Bytes
  | .utf8 value | .classRef value | .string value | .methodType value | .moduleRef value
  | .packageRef value => [value]
  | .nameAndType name descriptor | .dynamic _ name descriptor
  | .invokeDynamic _ name descriptor => [name, descriptor]
  | .fieldRef m | .methodRef m | .interfaceMethodRef m => [m.owner, m.name, m.descriptor]
  | .integer _ | .float _ | .long _ | .double _ | .methodHandle _ _ | .ready _ => []

/-- The indices in the constant are those of its parts, not given with the source. -/
def IsSymbolic : ConstantSource → Prop
  | .methodHandle _ _ | .ready _ => False
  | _ => True

instance : DecidablePred IsSymbolic := fun source => by
  unfold IsSymbolic
  split <;> infer_instance

end ConstantSource

namespace Pool

section

variable {p q : Pool} {texts : List Bytes} {v name descriptor : Bytes} {m : Member}

def Part (texts : List Bytes) (q : Pool) (c : Constant) : Prop := c.Refers q ∧ c.DrawnFrom texts

theorem Lasting.utf8Index? (v : Bytes) (i : UInt16) : Lasting (Pool.utf8Index? · v = some i) :=
  .find? _ i

theorem Lasting.classIndex? (name : Bytes) (i : UInt16) :
    Lasting (Pool.classIndex? · name = some i) :=
  .bind (.utf8Index? name) fun _ => .find? _ i

theorem Lasting.nameAndTypeIndex? (name descriptor : Bytes) (i : UInt16) :
    Lasting (Pool.nameAndTypeIndex? · name descriptor = some i) :=
  .bind (.utf8Index? name) fun _ => .bind (.utf8Index? descriptor) fun _ => .find? _ i

theorem Lasting.const {α : Type} (a b : α) : Lasting fun _ => some a = some b :=
  fun _ _ _ h => h

theorem Lasting.memberIndices? (m : Member) (indices : UInt16 × UInt16) :
    Lasting (Pool.memberIndices? · m = some indices) :=
  .bind (.classIndex? m.owner) fun _ => .bind (.nameAndTypeIndex? m.name m.descriptor) fun _ =>
    .const _ _

theorem Lasting.constant? (source : ConstantSource) (c : Constant) :
    Lasting (source.constant? · = some c) := by
  cases source with
  | utf8 | integer | float | long | double | methodHandle | ready => exact .const _ _
  | classRef v | string v | methodType v | moduleRef v | packageRef v =>
    exact .bind (.utf8Index? v) fun _ => .const _ _
  | nameAndType name descriptor =>
    exact .bind (.utf8Index? name) fun _ => .bind (.utf8Index? descriptor) fun _ => .const _ _
  | fieldRef m | methodRef m | interfaceMethodRef m =>
    exact .bind (.memberIndices? m) fun _ => .const _ _
  | dynamic _ name descriptor | invokeDynamic _ name descriptor =>
    exact .bind (.nameAndTypeIndex? name descriptor) fun _ => .const _ _

theorem Lasting.index? (source : ConstantSource) (i : UInt16) :
    Lasting (source.index? · = some i) :=
  .bind (.constant? source) fun _ => .find? _ i

theorem addUtf8_enters (h : v ∈ texts) :
    Enters (Part texts) (fun _ => True) (addUtf8 v) (utf8Index? · v) :=
  .add fun _ _ _ => ⟨trivial, h⟩

theorem hasTag_of_classIndex? {i : UInt16} (hp : p.Addressable)
    (h : p.classIndex? name = some i) : p.HasTag i .classRef := by
  obtain ⟨_, -, hfind⟩ := Option.bind_eq_some_iff.mp h
  exact hasTag_of_find? hp hfind

theorem hasTag_of_nameAndTypeIndex? {i : UInt16} (hp : p.Addressable)
    (h : p.nameAndTypeIndex? name descriptor = some i) : p.HasTag i .nameAndType := by
  obtain ⟨_, -, h⟩ := Option.bind_eq_some_iff.mp h
  obtain ⟨_, -, hfind⟩ := Option.bind_eq_some_iff.mp h
  exact hasTag_of_find? hp hfind

theorem addClass_enters (h : name ∈ texts) :
    Enters (Part texts) (fun _ => True) (addClass name) (classIndex? · name) :=
  .bind .true (.utf8Index? name) (addUtf8_enters h) fun _ =>
    .add fun _ hp ⟨_, hname⟩ => ⟨hasTag_of_find? hp hname, trivial⟩

theorem addNameAndType_enters (hname : name ∈ texts) (hdescriptor : descriptor ∈ texts) :
    Enters (Part texts) (fun _ => True) (addNameAndType name descriptor)
      (nameAndTypeIndex? · name descriptor) := by
  refine .bind .true (.utf8Index? name) (addUtf8_enters hname) fun i => ?_
  refine .bind (.and .true (.utf8Index? name i)) (.utf8Index? descriptor)
    ((addUtf8_enters hdescriptor).weaken fun _ _ => trivial) fun j => ?_
  exact .add fun p hp ⟨⟨_, hi⟩, hj⟩ => ⟨⟨hasTag_of_find? hp hi, hasTag_of_find? hp hj⟩, trivial⟩

theorem addMember_enters (howner : m.owner ∈ texts) (hname : m.name ∈ texts)
    (hdescriptor : m.descriptor ∈ texts) :
    Enters (Part texts) (fun _ => True) (addMember m) (memberIndices? · m) := by
  refine .bind .true (.classIndex? m.owner) (addClass_enters howner) fun i => ?_
  refine .bind (.and .true (.classIndex? m.owner i)) (.nameAndTypeIndex? m.name m.descriptor)
    ((addNameAndType_enters hname hdescriptor).weaken fun _ _ => trivial) fun j => ?_
  exact .pure _

/-- A constant that is made of one part: of a text, of a name and a descriptor, or of a member. -/
theorem Enters.made {α : Type} {part : StateM Pool α} {look : Pool → Option α}
    (make : α → Constant) {source : ConstantSource}
    (hsource : addSource source = do Pool.add (make (← part)))
    (hconstant : ∀ p, source.constant? p = do return make (← look p))
    (hlook : ∀ a, Lasting (look · = some a))
    (hpart : Enters (Part source.texts) (fun _ => True) part look)
    (hmake : ∀ p a, p.Addressable → look p = some a → Part source.texts p (make a)) :
    Enters (Part source.texts) (fun _ => True) (addSource source) (source.index? ·) := by
  have hindex : ∀ p, source.index? p = look p >>= fun a => p.find? (some (make a)) := by
    intro p
    simp only [ConstantSource.index?, hconstant, bind_assoc, pure_bind]
  simp only [hsource, hindex]
  exact .bind .true hlook hpart fun a => .add fun p hp ⟨_, ha⟩ => hmake p a hp ha

theorem Enters.named (make : UInt16 → Constant) {source : ConstantSource}
    (hsource : addSource source = do Pool.add (make (← addUtf8 v)))
    (hconstant : ∀ p, source.constant? p = do return make (← p.utf8Index? v))
    (htexts : source.texts = [v])
    (hmake : ∀ p i, p.HasTag i .utf8 → Part source.texts p (make i)) :
    Enters (Part source.texts) (fun _ => True) (addSource source) (source.index? ·) :=
  .made make hsource hconstant (.utf8Index? v) (addUtf8_enters (by simp [htexts])) fun p i hp hi =>
    hmake p i (hasTag_of_find? hp hi)

theorem Enters.typed (make : UInt16 → Constant) {source : ConstantSource}
    (hsource : addSource source = do Pool.add (make (← addNameAndType name descriptor)))
    (hconstant : ∀ p, source.constant? p = do return make (← p.nameAndTypeIndex? name descriptor))
    (htexts : source.texts = [name, descriptor])
    (hmake : ∀ p i, p.HasTag i .nameAndType → Part source.texts p (make i)) :
    Enters (Part source.texts) (fun _ => True) (addSource source) (source.index? ·) :=
  .made make hsource hconstant (.nameAndTypeIndex? name descriptor)
    (addNameAndType_enters (by simp [htexts]) (by simp [htexts])) fun p i hp hi =>
      hmake p i (hasTag_of_nameAndTypeIndex? hp hi)

theorem Enters.ofMember (make : UInt16 × UInt16 → Constant) {source : ConstantSource}
    (hsource : addSource source = do Pool.add (make (← addMember m)))
    (hconstant : ∀ p, source.constant? p = do return make (← p.memberIndices? m))
    (htexts : source.texts = [m.owner, m.name, m.descriptor])
    (hmake : ∀ p indices, p.HasTag indices.1 .classRef → p.HasTag indices.2 .nameAndType →
      Part source.texts p (make indices)) :
    Enters (Part source.texts) (fun _ => True) (addSource source) (source.index? ·) := by
  refine .made make hsource hconstant (.memberIndices? m)
    (addMember_enters (by simp [htexts]) (by simp [htexts]) (by simp [htexts])) ?_
  intro p indices hp hm
  obtain ⟨owner, howner, hm⟩ := Option.bind_eq_some_iff.mp hm
  obtain ⟨nat, hnat, hm⟩ := Option.bind_eq_some_iff.mp hm
  cases hm
  exact hmake p _ (hasTag_of_classIndex? hp howner) (hasTag_of_nameAndTypeIndex? hp hnat)

theorem addSource_enters {source : ConstantSource} (h : source.IsSymbolic) :
    Enters (Part source.texts) (fun _ => True) (addSource source) (source.index? ·) := by
  cases source with
  | methodHandle | ready => cases h
  | utf8 v => exact addUtf8_enters List.mem_cons_self
  | integer | float | long | double => exact .add fun _ _ _ => ⟨trivial, trivial⟩
  | nameAndType name descriptor =>
    have hindex : ∀ p, (ConstantSource.nameAndType name descriptor).index? p =
        p.nameAndTypeIndex? name descriptor := by
      intro p
      simp only [ConstantSource.index?, ConstantSource.constant?, nameAndTypeIndex?, bind_assoc,
        pure_bind]
    simp only [hindex]
    exact addNameAndType_enters (by simp [ConstantSource.texts]) (by simp [ConstantSource.texts])
  | classRef v => exact .named .classRef rfl (fun _ => rfl) rfl fun _ _ h => ⟨h, trivial⟩
  | string v => exact .named .string rfl (fun _ => rfl) rfl fun _ _ h => ⟨h, trivial⟩
  | methodType v => exact .named .methodType rfl (fun _ => rfl) rfl fun _ _ h => ⟨h, trivial⟩
  | moduleRef v => exact .named .moduleRef rfl (fun _ => rfl) rfl fun _ _ h => ⟨h, trivial⟩
  | packageRef v => exact .named .packageRef rfl (fun _ => rfl) rfl fun _ _ h => ⟨h, trivial⟩
  | dynamic bootstrap name descriptor =>
    exact .typed (.dynamic bootstrap) rfl (fun _ => rfl) rfl fun _ _ h => ⟨h, trivial⟩
  | invokeDynamic bootstrap name descriptor =>
    exact .typed (.invokeDynamic bootstrap) rfl (fun _ => rfl) rfl fun _ _ h => ⟨h, trivial⟩
  | fieldRef m =>
    exact .ofMember (fun indices => .fieldRef indices.1 indices.2) rfl (fun _ => rfl) rfl
      fun _ _ h h' => ⟨⟨h, h'⟩, trivial⟩
  | methodRef m =>
    exact .ofMember (fun indices => .methodRef indices.1 indices.2) rfl (fun _ => rfl) rfl
      fun _ _ h h' => ⟨⟨h, h'⟩, trivial⟩
  | interfaceMethodRef m =>
    exact .ofMember (fun indices => .interfaceMethodRef indices.1 indices.2) rfl (fun _ => rfl) rfl
      fun _ _ h h' => ⟨⟨h, h'⟩, trivial⟩

/-- Whatever is asked for, given indices included, is found where it was said to be. -/
theorem addSource_enters_any (source : ConstantSource) :
    Enters (fun _ _ => True) (fun _ => True) (addSource source) (source.index? ·) := by
  by_cases h : source.IsSymbolic
  · exact (addSource_enters h).relax fun _ _ _ => trivial
  · cases source with
    | methodHandle | ready => exact .add fun _ _ _ => trivial
    | _ => exact absurd trivial h

end

-- ---------------------------------------------------------------------------
-- Looking up
-- ---------------------------------------------------------------------------

def ReadsBack (p : Pool) (i : UInt16) : ConstantSource → Prop
  | .utf8 value => p.utf8 i = .ok value
  | .classRef name => p.className i = .ok name
  | .nameAndType name descriptor => p.nameAndType i = .ok (name, descriptor)
  | .fieldRef m | .methodRef m | .interfaceMethodRef m => p.member i = .ok m
  | .string value => ∃ k, p.get i = .ok (.string k) ∧ p.utf8 k = .ok value
  | .methodType descriptor => ∃ k, p.get i = .ok (.methodType k) ∧ p.utf8 k = .ok descriptor
  | .moduleRef name => ∃ k, p.get i = .ok (.moduleRef k) ∧ p.utf8 k = .ok name
  | .packageRef name => ∃ k, p.get i = .ok (.packageRef k) ∧ p.utf8 k = .ok name
  | .dynamic bootstrap name descriptor =>
    ∃ k, p.get i = .ok (.dynamic bootstrap k) ∧ p.nameAndType k = .ok (name, descriptor)
  | .invokeDynamic bootstrap name descriptor =>
    ∃ k, p.get i = .ok (.invokeDynamic bootstrap k) ∧ p.nameAndType k = .ok (name, descriptor)
  | .integer _ | .float _ | .long _ | .double _ | .methodHandle _ _ | .ready _ => True

/-- The index is that of the constant that the source stands for. -/
structure Holds (p : Pool) (source : ConstantSource) (i : UInt16) (c : Constant) : Prop where
  constant? : source.constant? p = some c
  get : p.get i = .ok c
  find? : p.find? (some c) = some i
  readsBack : p.ReadsBack i source

section

variable {p q : Pool} {v name descriptor : Bytes} {m : Member} {i : UInt16} {c : Constant}

theorem utf8_of_index? (hp : p.Addressable) (h : p.utf8Index? v = some i) : p.utf8 i = .ok v := by
  rw [utf8, get_of_find? hp h]
  rfl

theorem className_of_index? (hp : p.Addressable) (h : p.classIndex? name = some i) :
    p.className i = .ok name := by
  obtain ⟨k, hk, hfind⟩ := Option.bind_eq_some_iff.mp h
  rw [className, get_of_find? hp hfind]
  exact utf8_of_index? hp hk

theorem nameAndType_of_index? (hp : p.Addressable)
    (h : p.nameAndTypeIndex? name descriptor = some i) :
    p.nameAndType i = .ok (name, descriptor) := by
  obtain ⟨k, hk, h⟩ := Option.bind_eq_some_iff.mp h
  obtain ⟨l, hl, hfind⟩ := Option.bind_eq_some_iff.mp h
  simp only [nameAndType, get_of_find? hp hfind, Result.ok_bind, utf8_of_index? hp hk,
    utf8_of_index? hp hl]
  rfl

theorem member_of_indices? {owner nat : UInt16} (hp : p.Addressable)
    (h : p.memberIndices? m = some (owner, nat)) (hget : p.get i = .ok c)
    (hindices : c.memberIndices? = some (owner, nat)) : p.member i = .ok m := by
  obtain ⟨_, howner, h⟩ := Option.bind_eq_some_iff.mp h
  obtain ⟨_, hnat, h⟩ := Option.bind_eq_some_iff.mp h
  cases h
  simp only [member, hget, Result.ok_bind, hindices, className_of_index? hp howner,
    nameAndType_of_index? hp hnat]
  rfl

theorem readsBack_of_constant? {source : ConstantSource} (hp : p.Addressable)
    (hc : source.constant? p = some c) (hget : p.get i = .ok c) : p.ReadsBack i source := by
  cases source with
  | integer | float | long | double | methodHandle | ready => trivial
  | utf8 v =>
    cases hc
    simp only [ReadsBack, utf8, hget]
    rfl
  | classRef name =>
    obtain ⟨k, hk, hc⟩ := Option.bind_eq_some_iff.mp hc
    cases hc
    simp only [ReadsBack, className, hget, Result.ok_bind]
    exact utf8_of_index? hp hk
  | string v | methodType v | moduleRef v | packageRef v =>
    obtain ⟨k, hk, hc⟩ := Option.bind_eq_some_iff.mp hc
    cases hc
    exact ⟨k, hget, utf8_of_index? hp hk⟩
  | nameAndType name descriptor =>
    obtain ⟨k, hk, hc⟩ := Option.bind_eq_some_iff.mp hc
    obtain ⟨l, hl, hc⟩ := Option.bind_eq_some_iff.mp hc
    cases hc
    simp only [ReadsBack, nameAndType, hget, Result.ok_bind, utf8_of_index? hp hk,
      utf8_of_index? hp hl]
    rfl
  | dynamic bootstrap name descriptor | invokeDynamic bootstrap name descriptor =>
    obtain ⟨k, hk, hc⟩ := Option.bind_eq_some_iff.mp hc
    cases hc
    exact ⟨k, hget, nameAndType_of_index? hp hk⟩
  | fieldRef m | methodRef m | interfaceMethodRef m =>
    obtain ⟨⟨owner, nat⟩, hm, hc⟩ := Option.bind_eq_some_iff.mp hc
    cases hc
    exact member_of_indices? hp hm hget rfl

theorem holds_of_index? {source : ConstantSource} (hp : p.Addressable)
    (h : source.index? p = some i) : ∃ c, p.Holds source i c := by
  obtain ⟨c, hc, hfind⟩ := Option.bind_eq_some_iff.mp h
  have hget := get_of_find? hp hfind
  exact ⟨c, hc, hget, hfind, readsBack_of_constant? hp hc hget⟩

theorem exists_holds_of_extends {source : ConstantSource} (hextends : p.Extends q)
    (hq : q.Addressable) (h : source.index? p = some i) :
    ∃ c, p.Holds source i c ∧ q.Holds source i c := by
  obtain ⟨c, hc⟩ := holds_of_index? (hextends.addressable hq) h
  obtain ⟨c', hc'⟩ := holds_of_index? hq (Lasting.index? source i hextends h)
  have hsame := Lasting.constant? source c hextends hc.constant?
  cases hsame.symm.trans hc'.constant?
  exact ⟨c, hc, hc'⟩

theorem Holds.constant?_eq_iff {source source' : ConstantSource} {i' : UInt16} {c' : Constant}
    (h : p.Holds source i c) (h' : p.Holds source' i' c') :
    source.constant? p = source'.constant? p ↔ i = i' := by
  rw [h.constant?, h'.constant?, Option.some_inj]
  constructor
  · rintro rfl
    exact Option.some.inj (h.find?.symm.trans h'.find?)
  · rintro rfl
    exact Except.ok.inj (h.get.symm.trans h'.get)

end

-- ---------------------------------------------------------------------------
-- Sequences of requests
-- ---------------------------------------------------------------------------

theorem mapM_addSource_enters {p : Pool} (hp : 0 < p.entries.length) (calls : List ConstantSource) :
    Grown (fun _ _ => True) p ((calls.mapM addSource).run p).2 ∧
      List.Forall₂ (fun source i => source.index? ((calls.mapM addSource).run p).2 = some i) calls
        ((calls.mapM addSource).run p).1 := by
  induction calls generalizing p with
  | nil => exact ⟨.refl, .nil⟩
  | cons source calls ih =>
    obtain ⟨hfirst, hindex⟩ := addSource_enters_any source p hp trivial
    obtain ⟨hrest, hindices⟩ := ih (hfirst.extends.pos hp)
    rw [List.mapM_cons]
    exact ⟨hfirst.trans hrest, .cons (Lasting.index? source _ hrest.extends hindex) hindices⟩

theorem slotted_empty : Slotted empty.entries := by decide

/-- Each request is answered with an index that holds the requested constant from then on. The
indices of two requests are equal exactly if their constants are, and no slots are empty but those
that have to be. A builder that looks its constants up in a table answers alike. -/
theorem addSource_interned {calls later : List ConstantSource} {is js : List UInt16} {p p' : Pool}
    (hcalls : (calls.mapM addSource).run empty = (is, p))
    (hlater : (later.mapM addSource).run p = (js, p')) (hp' : p'.Addressable) :
    List.Forall₂ (fun source i => ∃ c, p.Holds source i c ∧ p'.Holds source i c) calls is ∧
      (∀ source i source' i', (source, i) ∈ calls.zip is → (source', i') ∈ calls.zip is →
        (source.constant? p' = source'.constant? p' ↔ i = i')) ∧
      Slotted p.entries ∧ Slotted p'.entries ∧
      ∃ b b', (calls.mapM Indexed.addSource).run .empty = (is, b) ∧ b.pool = p ∧
        (later.mapM Indexed.addSource).run b = (js, b') ∧ b'.pool = p' := by
  have hempty : 0 < empty.entries.length := by decide
  obtain ⟨hgrown, hindices⟩ := mapM_addSource_enters hempty calls
  rw [hcalls] at hgrown hindices
  have hgrown' := (mapM_addSource_enters (hgrown.extends.pos hempty) later).1
  rw [hlater] at hgrown'
  have hholds : List.Forall₂ (fun source i => ∃ c, p.Holds source i c ∧ p'.Holds source i c)
      calls is :=
    hindices.imp fun source i => exists_holds_of_extends hgrown'.extends hp'
  refine ⟨hholds, fun source i source' i' hmem hmem' => ?_, hgrown.slotted slotted_empty,
    hgrown'.slotted (hgrown.slotted slotted_empty), ?_⟩
  · obtain ⟨c, -, hc⟩ := List.forall₂_zip hholds hmem
    obtain ⟨c', -, hc'⟩ := List.forall₂_zip hholds hmem'
    exact hc.constant?_eq_iff hc'
  · obtain ⟨b, hb, rfl, hstep⟩ := Indexed.empty_inStep.exists_run hcalls
    obtain ⟨b', hb', rfl, -⟩ := hstep.exists_run hlater
    exact ⟨b, b', hb, rfl, hb', rfl⟩

def requests : List ConstantSource :=
  [.methodRef ⟨text "A", text "f", text "()V"⟩, .long 5, .string (text "A"), .classRef (text "A"),
    .ready (.classRef 1), .methodHandle 6 6]

def laterRequests : List ConstantSource := [.double 1, .utf8 (text "f")]

theorem addSource_interned_requests : ∃ p p',
    (requests.mapM addSource).run empty = ([6, 7, 9, 2, 2, 10], p) ∧
      (laterRequests.mapM addSource).run p = ([11, 3], p') ∧ p'.Addressable ∧
      List.Forall₂ (fun source i => ∃ c, p.Holds source i c ∧ p'.Holds source i c) requests
        [6, 7, 9, 2, 2, 10] := by
  let p := ((requests.mapM addSource).run empty).2
  let p' := ((laterRequests.mapM addSource).run p).2
  have hcalls : (requests.mapM addSource).run empty = ([6, 7, 9, 2, 2, 10], p) :=
    Prod.ext (by decide +kernel) rfl
  have hlater : (laterRequests.mapM addSource).run p = ([11, 3], p') :=
    Prod.ext (by decide +kernel) rfl
  have hp' : p'.Addressable := by decide +kernel
  exact ⟨p, p', hcalls, hlater, hp', (addSource_interned hcalls hlater hp').1⟩

end Pool
end ClassHeader
