import ClassHeader.ClassFile.Basic
import ClassHeader.ClassFile.Decode
import ClassHeader.Proofs.Binary.Format
import ClassHeader.Proofs.ClassFile.Representable

/-!
# Decoding undoes encoding

`decodeFrom_ok_iff`: decoding accepts exactly the encodings of representable class
files, from memory as well as from a stream. The proof follows the reader part by
part; each lemma gives the format of one part. Both round trips and the range of
decoding follow from it.
-/

namespace ClassHeader

open Binary Binary.Read Binary.Reader

theorem Binary.Read.Reads.counted {α : Type} {element : Read α} {valid : α → Prop}
    {encode : α → Bytes} (h : Reads element valid encode) {r r' : Reader} {as : List α} :
    (∃ count mid, r.Passes (Binary.u2 count) mid ∧
      Read.times element count.toNat mid = .ok as r') ↔
    FitsTable valid as ∧ r.Passes (encodeTable encode as) r' := by
  simp only [(h.times _) _ _ _]
  constructor
  · rintro ⟨count, mid, hcount, ⟨hlen, hvalid⟩, helements⟩
    have hlt : count.toNat < 65536 := count.toNat_lt
    refine ⟨⟨by omega, hvalid⟩, ?_⟩
    rw [encodeTable, hlen, UInt16.ofNat_toNat]
    exact hcount.trans helements
  · rintro ⟨⟨hlen, hvalid⟩, hpass⟩
    obtain ⟨mid, hcount, helements⟩ := passes_append.mp hpass
    refine ⟨_, mid, hcount, ⟨?_, hvalid⟩, helements⟩
    rw [UInt16.toNat_ofNat']
    omega

namespace ClassFile

variable {r r' : Reader}

@[simp] theorem readPart_ok_iff {α : Type} {part : Bytes} {step : Read α} {a : α} :
    readPart part step r = .ok a r' ↔ step r = .ok a r' := mapError_ok_iff

theorem readTable_reads {α : Type} {part : Bytes} {element : Read α} {valid : α → Prop}
    {encode : α → Bytes} (h : Reads element valid encode) :
    Reads (readTable part element) (FitsTable valid) (encodeTable encode) := by
  intro r as r'
  simp only [readTable, bind_ok_iff, readPart_ok_iff, u2_ok_iff]
  exact h.counted

-- ---------------------------------------------------------------------------
-- Constants
-- ---------------------------------------------------------------------------

theorem ofCode?_eq_some_iff {code : UInt8} {tag : Tag} :
    Tag.ofCode? code = some tag ↔ code = tag.code := by
  constructor
  · intro h
    have hcode := List.find?_some h
    exact (by simpa using hcode : tag.code = code).symm
  · rintro rfl
    cases tag <;> rfl

theorem readPayload_ok_iff {place : Nat} {tag : Tag} {c : Constant} :
    readPayload place tag r = .ok c r' ↔
      c.tag = tag ∧ c.Representable ∧ r.Passes c.payload r' := by
  constructor
  · intro h
    cases tag with
    | utf8 =>
      simp only [readPayload, bind_ok_iff, readPart_ok_iff, u2_ok_iff, take_ok_iff,
        pure_ok_iff] at h
      obtain ⟨length, mid, hlength, value, last, ⟨hlen, hvalue⟩, rfl, rfl⟩ := h
      have hlt : length.toNat < 65536 := length.toNat_lt
      refine ⟨rfl, by simp only [Constant.Representable]; omega, ?_⟩
      rw [Constant.payload, hlen, UInt16.ofNat_toNat]
      exact hlength.trans hvalue
    | methodHandle =>
      simp only [readPayload, bind_ok_iff, readPart_ok_iff, u1_ok_iff, u2_ok_iff, ensure_ok_iff,
        pure_ok_iff] at h
      obtain ⟨kind, mid, hkind, _, _, ⟨hrange, rfl⟩, index, last, hindex, rfl, rfl⟩ := h
      have hfits : 1 ≤ kind ∧ kind ≤ 9 := by simpa [Constant.isReferenceKind] using hrange
      exact ⟨rfl, hfits, hkind.trans hindex⟩
    | integer | float | classRef | string | methodType | moduleRef | packageRef =>
      simp only [readPayload, bind_ok_iff, readPart_ok_iff, u2_ok_iff, u4_ok_iff,
        pure_ok_iff] at h
      obtain ⟨word, last, hword, rfl, rfl⟩ := h
      exact ⟨rfl, trivial, hword⟩
    | long | double | fieldRef | methodRef | interfaceMethodRef | nameAndType | dynamic
    | invokeDynamic =>
      simp only [readPayload, bind_ok_iff, readPart_ok_iff, u2_ok_iff, u4_ok_iff,
        pure_ok_iff] at h
      obtain ⟨first, mid, hfirst, second, last, hsecond, rfl, rfl⟩ := h
      exact ⟨rfl, trivial, hfirst.trans hsecond⟩
  · rintro ⟨rfl, hfits, hpass⟩
    cases c with
    | utf8 value =>
      have hlen : value.length ≤ 65535 := hfits
      obtain ⟨mid, hlength, hvalue⟩ := passes_append.mp hpass
      have hcount : value.length = (UInt16.ofNat value.length).toNat := by
        rw [UInt16.toNat_ofNat']
        omega
      simpa [Constant.tag, readPayload] using ⟨_, mid, hlength, hcount, hvalue⟩
    | integer value => simpa [Constant.tag, readPayload] using ⟨_, hpass, by simp⟩
    | methodHandle kind reference =>
      obtain ⟨mid, hkind, hreference⟩ := passes_append.mp hpass
      have hrange : 1 ≤ kind ∧ kind ≤ 9 := hfits
      simpa [Constant.tag, readPayload, Constant.isReferenceKind, hrange] using
        ⟨mid, hkind, hreference⟩
    | float | classRef | string | methodType | moduleRef | packageRef =>
      simpa [Constant.tag, readPayload, Constant.payload] using hpass
    | long | double | fieldRef | methodRef | interfaceMethodRef | nameAndType | dynamic
    | invokeDynamic =>
      simpa [Constant.tag, readPayload] using passes_append.mp hpass

theorem readConstant_reads : Reads readConstant Constant.Representable Constant.encode := by
  intro r c r'
  simp only [readConstant, bind_ok_iff, position_ok_iff, readPart_ok_iff, u1_ok_iff]
  constructor
  · rintro ⟨_, _, ⟨rfl, rfl⟩, code, mid, hcode, h⟩
    cases htag : Tag.ofCode? code with
    | none => simp [htag] at h
    | some tag =>
      rw [htag] at h
      obtain ⟨rfl, hfits, hpayload⟩ := readPayload_ok_iff.mp h
      rw [ofCode?_eq_some_iff.mp htag] at hcode
      exact ⟨hfits, hcode.trans hpayload⟩
  · rintro ⟨hfits, hpass⟩
    obtain ⟨mid, hcode, hpayload⟩ := passes_append.mp hpass
    refine ⟨_, _, ⟨rfl, rfl⟩, c.tag.code, mid, hcode, ?_⟩
    rw [ofCode?_eq_some_iff.mpr rfl]
    exact readPayload_ok_iff.mpr ⟨rfl, hfits, hpayload⟩

-- ---------------------------------------------------------------------------
-- The pool
-- ---------------------------------------------------------------------------

def encodeSlot : Option Constant → Bytes
  | some c => c.encode
  | none => []

theorem encode_pool (p : Pool) :
    p.encode = Binary.u2 (UInt16.ofNat p.count) ++ (p.entries.drop 1).flatMap encodeSlot := by
  rfl

theorem readEntries_ok {index left : Nat} {entries : List (Option Constant)}
    (h : readEntries index left r = .ok entries r') :
    entries.length = left ∧ Pool.Filled entries ∧
      (∀ entry ∈ entries, ∀ c ∈ entry, c.Representable) ∧
      r.Passes (entries.flatMap encodeSlot) r' := by
  induction left using Nat.strongRecOn generalizing index r entries with
  | ind left ih =>
    cases left with
    | zero =>
      simp only [readEntries, pure_ok_iff] at h
      obtain ⟨rfl, rfl⟩ := h
      exact ⟨rfl, .nil, by simp, by simp⟩
    | succ left =>
      simp only [readEntries, bind_ok_iff, position_ok_iff] at h
      obtain ⟨_, _, ⟨rfl, rfl⟩, c, mid, hc, h⟩ := h
      obtain ⟨hfits, hpass⟩ := (readConstant_reads ..).mp hc
      split at h
      · rename_i hwide
        cases left with
        | zero => simp at h
        | succ left =>
          simp only [bind_ok_iff, pure_ok_iff] at h
          obtain ⟨rest, last, hrest, rfl, rfl⟩ := h
          obtain ⟨hlen, hfilled, hall, hothers⟩ := ih left (by omega) hrest
          exact ⟨by simp [hlen], .wide hwide hfilled, by simpa using ⟨hfits, hall⟩,
            hpass.trans hothers⟩
      · rename_i hnarrow
        simp only [bind_ok_iff, pure_ok_iff] at h
        obtain ⟨rest, last, hrest, rfl, rfl⟩ := h
        obtain ⟨hlen, hfilled, hall, hothers⟩ := ih left (by omega) hrest
        exact ⟨by simp [hlen], .narrow (by simpa using hnarrow) hfilled,
          by simpa using ⟨hfits, hall⟩, hpass.trans hothers⟩

theorem readEntries_of_filled {index : Nat} {entries : List (Option Constant)}
    (hfilled : Pool.Filled entries) (hall : ∀ entry ∈ entries, ∀ c ∈ entry, c.Representable)
    (hpass : r.Passes (entries.flatMap encodeSlot) r') :
    readEntries index entries.length r = .ok entries r' := by
  induction hfilled generalizing index r with
  | nil => simpa [readEntries] using hpass
  | @narrow c rest hnarrow _ ih =>
    obtain ⟨mid, hc, hrest⟩ := passes_append.mp hpass
    have hread := (readConstant_reads ..).mpr ⟨hall (some c) (by simp) c rfl, hc⟩
    have hothers : readEntries (index + 1) rest.length mid = .ok rest r' :=
      ih (fun e he => hall e (by simp [he])) hrest
    simp [readEntries, hread, hnarrow, hothers]
  | @wide c rest hwide _ ih =>
    obtain ⟨mid, hc, hrest⟩ := passes_append.mp hpass
    have hread := (readConstant_reads ..).mpr ⟨hall (some c) (by simp) c rfl, hc⟩
    have hothers : readEntries (index + 2) rest.length mid = .ok rest r' :=
      ih (fun e he => hall e (by simp [he])) hrest
    simp [readEntries, hread, hwide, hothers]

theorem readPool_reads : Reads readPool Pool.Representable Pool.encode := by
  intro r p r'
  rw [encode_pool]
  simp only [readPool, bind_ok_iff, readPart_ok_iff, u2_ok_iff, ensure_ok_iff, pure_ok_iff]
  constructor
  · rintro ⟨count, mid, hcount, _, _, ⟨hne, rfl⟩, entries, last, hentries, rfl, rfl⟩
    obtain ⟨hlen, hfilled, hall, hpass⟩ := readEntries_ok hentries
    have hlt : count.toNat < 65536 := count.toNat_lt
    have hpos : count.toNat ≠ 0 := fun h => hne (UInt16.toNat_inj.mp h)
    have hsize : entries.length + 1 = count.toNat := by omega
    refine ⟨⟨by simp, by simp only [List.length_cons]; omega,
      Pool.slotted_iff.mpr ⟨entries, rfl, hfilled⟩, by simpa using hall⟩, ?_⟩
    have hwritten : UInt16.ofNat (Pool.count ⟨none :: entries⟩) = count := by
      rw [Pool.count, List.length_cons, hsize, Nat.max_eq_right (by omega), UInt16.ofNat_toNat]
    rw [hwritten]
    exact hcount.trans hpass
  · rintro ⟨⟨_, hle, hslotted, hall⟩, hpass⟩
    obtain ⟨mid, hcount, hentries⟩ := passes_append.mp hpass
    obtain ⟨entries, hcons, hfilled⟩ := Pool.slotted_iff.mp hslotted
    obtain ⟨_⟩ := p
    subst hcons
    simp only [List.length_cons] at hle
    have hread : (UInt16.ofNat (Pool.count ⟨none :: entries⟩)).toNat = entries.length + 1 := by
      rw [UInt16.toNat_ofNat', Pool.count, List.length_cons]
      omega
    refine ⟨_, mid, hcount, (), mid, ⟨?_, rfl⟩, entries, r', ?_, rfl, rfl⟩
    · intro hzero
      simp [hzero] at hread
    · rw [hread]
      exact readEntries_of_filled hfilled (fun e he => hall e (by simp [he])) hentries

-- ---------------------------------------------------------------------------
-- Members and attributes
-- ---------------------------------------------------------------------------

theorem readAttribute_reads (part : Bytes) :
    Reads (readAttribute part) Attribute.Representable Attribute.encode := by
  intro r a r'
  simp only [readAttribute, bind_ok_iff, readPart_ok_iff, u2_ok_iff, u4_ok_iff, take_ok_iff,
    pure_ok_iff]
  constructor
  · rintro ⟨name, first, hname, length, second, hlength, info, last, ⟨hlen, hinfo⟩, rfl, rfl⟩
    have hlt : length.toNat < 2 ^ 32 := length.toNat_lt
    refine ⟨by simp only [Attribute.Representable]; omega, ?_⟩
    simp only [Attribute.encode, hlen, UInt32.ofNat_toNat]
    exact (hname.trans hlength).trans hinfo
  · rintro ⟨hfits, hpass⟩
    simp only [Attribute.encode, passes_append] at hpass
    obtain ⟨second, ⟨first, hname, hlength⟩, hinfo⟩ := hpass
    have hlen : a.info.length = (UInt32.ofNat a.info.length).toNat := by
      rw [UInt32.toNat_ofNat', Nat.mod_eq_of_lt hfits]
    exact ⟨_, first, hname, _, second, hlength, _, r', ⟨hlen, hinfo⟩, rfl, rfl⟩

theorem readAttributes_reads (part : Bytes) :
    Reads (readAttributes part) (FitsTable Attribute.Representable)
      (encodeTable Attribute.encode) :=
  readTable_reads (readAttribute_reads part)

theorem readMember_reads (part : Bytes) :
    Reads (readMember part) MemberInfo.Representable MemberInfo.encode := by
  intro r m r'
  simp only [readMember, bind_ok_iff, readPart_ok_iff, u2_ok_iff, readAttributes_reads _ _ _ _,
    pure_ok_iff, MemberInfo.encode, passes_append]
  constructor
  · rintro ⟨access, first, haccess, name, second, hname, descriptor, third, hdescriptor,
      attributes, last, ⟨hfits, hattributes⟩, rfl, rfl⟩
    exact ⟨hfits, third, ⟨second, ⟨first, haccess, hname⟩, hdescriptor⟩, hattributes⟩
  · rintro ⟨hfits, third, ⟨second, ⟨first, haccess, hname⟩, hdescriptor⟩, hattributes⟩
    exact ⟨_, first, haccess, _, second, hname, _, third, hdescriptor, _, r',
      ⟨hfits, hattributes⟩, rfl, rfl⟩

-- ---------------------------------------------------------------------------
-- Whole files
-- ---------------------------------------------------------------------------

theorem readEnd_ok_iff {u : Unit} : readEnd r = .ok u r' ↔ r.rest = [] ∧ r = r' := by
  unfold readEnd Read.byte
  cases hrest : r.rest with
  | nil => simp
  | cons b rest => simp

/-- A magic number that was read is not zero, so it is written as it is. -/
theorem encode_of_magic {c : ClassFile} (h : c.magic = classMagic) :
    c.encode = Binary.u4 c.magic ++ Binary.u2 c.minor ++ Binary.u2 c.major ++ c.pool.encode ++
      Binary.u2 c.access ++ Binary.u2 c.thisClass ++ Binary.u2 c.superClass ++
      encodeTable Binary.u2 c.interfaces ++ encodeTable MemberInfo.encode c.fields ++
      encodeTable MemberInfo.encode c.methods ++ encodeTable Attribute.encode c.attributes := by
  have hne : classMagic ≠ 0 := by decide
  simp [ClassFile.encode, h, hne]

theorem readInterfaces_reads (part : Bytes) :
    Reads (readTable part (readPart part Read.u2)) (fun indices => indices.length ≤ 65535)
      (encodeTable Binary.u2) := by
  intro r indices r'
  have hword : Reads (readPart part Read.u2) (fun _ => True) Binary.u2 := by
    intro r v r'
    simp
  rw [readTable_reads hword]
  simp [FitsTable]

theorem read_ok_iff {c : ClassFile} :
    read r = .ok c r' ↔ c.Representable ∧ r.Passes c.encode r' ∧ r'.rest = [] := by
  simp only [read, bind_ok_iff, readPart_ok_iff, u2_ok_iff, u4_ok_iff, ensure_ok_iff,
    readPool_reads _ _ _, readInterfaces_reads _ _ _ _, readTable_reads (readMember_reads _) _ _ _,
    readAttributes_reads _ _ _ _, readEnd_ok_iff, pure_ok_iff]
  constructor
  · rintro ⟨magic, r₁, hmagic, _, _, ⟨hmagicOk, rfl⟩, minor, r₂, hminor, major, r₃, hmajor,
      _, _, ⟨hmajorOk, rfl⟩, pool, r₄, ⟨hpoolOk, hpool⟩, access, r₅, haccess, this, r₆, hthis,
      super, r₇, hsuper, interfaces, r₈, ⟨hinterfacesOk, hinterfaces⟩, fields, r₉,
      ⟨hfieldsOk, hfields⟩, methods, r₁₀, ⟨hmethodsOk, hmethods⟩, attributes, r₁₁,
      ⟨hattributesOk, hattributes⟩, _, _, ⟨hend, rfl⟩, rfl, rfl⟩
    refine ⟨⟨hmagicOk, hmajorOk, hpoolOk, hinterfacesOk, hfieldsOk, hmethodsOk, hattributesOk⟩,
      ?_, hend⟩
    rw [encode_of_magic hmagicOk]
    exact ((((((((((hmagic.trans hminor).trans hmajor).trans hpool).trans haccess).trans
      hthis).trans hsuper).trans hinterfaces).trans hfields).trans hmethods).trans hattributes)
  · rintro ⟨⟨hmagicOk, hmajorOk, hpoolOk, hinterfacesOk, hfieldsOk, hmethodsOk, hattributesOk⟩,
      hpass, hend⟩
    simp only [encode_of_magic hmagicOk, passes_append] at hpass
    obtain ⟨r₁₀, ⟨r₉, ⟨r₈, ⟨r₇, ⟨r₆, ⟨r₅, ⟨r₄, ⟨r₃, ⟨r₂, ⟨r₁, hmagic, hminor⟩, hmajor⟩, hpool⟩,
      haccess⟩, hthis⟩, hsuper⟩, hinterfaces⟩, hfields⟩, hmethods⟩, hattributes⟩ := hpass
    exact ⟨_, r₁, hmagic, (), _, ⟨hmagicOk, rfl⟩, _, r₂, hminor, _, r₃, hmajor, (), _,
      ⟨hmajorOk, rfl⟩, _, r₄, ⟨hpoolOk, hpool⟩, _, r₅, haccess, _, r₆, hthis, _, r₇, hsuper, _,
      r₈, ⟨hinterfacesOk, hinterfaces⟩, _, r₉, ⟨hfieldsOk, hfields⟩, _, r₁₀,
      ⟨hmethodsOk, hmethods⟩, _, r', ⟨hattributesOk, hattributes⟩, (), _, ⟨hend, rfl⟩, rfl, rfl⟩

/-- Decoding accepts exactly the encodings of representable class files. -/
theorem decodeFrom_ok_iff {source : Source} {data : Bytes} {c : ClassFile} :
    decodeFrom source data = .ok c ↔ c.Representable ∧ c.encode = data := by
  simp only [decodeFrom, runOn_ok_iff, read_ok_iff]
  constructor
  · rintro ⟨r', hfits, hpass, hend⟩
    exact ⟨hfits, hpass.eq_of_rest_nil hend⟩
  · rintro ⟨hfits, rfl⟩
    exact ⟨_, hfits, passes_all source _, rfl⟩

-- ---------------------------------------------------------------------------
-- Round trips
-- ---------------------------------------------------------------------------

def specimen : ClassFile where
  magic := 0xCAFEBABE
  minor := 3
  major := 65
  pool := ⟨[none, some (.utf8 [0x41]), some (.long 1 2), none, some (.classRef 1),
    some (.methodHandle 9 4)]⟩
  access := 0x21
  thisClass := 4
  superClass := 0
  interfaces := [4]
  fields := [{ access := 2, nameIndex := 1, descriptorIndex := 1, attributes := [⟨1, [7, 8]⟩] }]
  methods := []
  attributes := []

def specimenData : Bytes :=
  [0xCA, 0xFE, 0xBA, 0xBE, 0, 3, 0, 65, 0, 6, 1, 0, 1, 0x41, 5, 0, 0, 0, 1, 0, 0, 0, 2, 7, 0, 1,
    15, 9, 0, 4, 0, 0x21, 0, 4, 0, 0, 0, 1, 0, 4, 0, 1, 0, 2, 0, 1, 0, 1, 0, 1, 0, 1, 0, 0, 0, 2,
    7, 8, 0, 0, 0, 0]

theorem encode_of_decode {data : Bytes} {c : ClassFile} (h : decode data = .ok c) :
    c.encode = data :=
  (decodeFrom_ok_iff.mp h).2

theorem encode_of_decode_specimen :
    decode specimenData = .ok specimen ∧ specimen.encode = specimenData := by
  have h : decode specimenData = .ok specimen := by cbv
  exact ⟨h, encode_of_decode h⟩

/-- Decoding undoes the encoding of every representable class file, and gives no others. -/
theorem decode_encode_representable :
    (∀ c : ClassFile, c.Representable → decode c.encode = .ok c) ∧
      ∀ (data : Bytes) (c : ClassFile), decode data = .ok c → c.Representable := by
  constructor
  · intro c hfits
    exact decodeFrom_ok_iff.mpr ⟨hfits, rfl⟩
  · intro data c h
    exact (decodeFrom_ok_iff.mp h).1

theorem decode_encode_specimen :
    specimen.Representable ∧ decode specimen.encode = .ok specimen := by
  have h : specimen.Representable := by decide
  exact ⟨h, decode_encode_representable.1 specimen h⟩

end ClassFile
end ClassHeader
