import ClassHeader.ClassFile.Payload
import ClassHeader.Proofs.Binary.Failure
import ClassHeader.Proofs.ClassFile.RoundTrip

/-!
# Table payloads

Tables of rows of one size, and the table of bootstrap methods with its rows of many
sizes, are parsed from exactly the bytes that are written for a table that fits its
counts. Under the right name nothing but the size of a payload can be at fault
(`tables_parse_exactly`).
-/

namespace ClassHeader

open Binary Binary.Read Binary.Reader

-- ---------------------------------------------------------------------------
-- Rows
-- ---------------------------------------------------------------------------

namespace RowFormat

/-- Rows are read as they are written, and all of them are of the stated size. -/
structure Lawful {α : Type} (format : RowFormat α) : Prop where
  reads : Reads format.read (fun _ => True) format.encode
  length_encode : ∀ row, (format.encode row).length = format.size

theorem index_lawful : index.Lawful where
  reads := by
    intro r row r'
    simp [index]
  length_encode := length_u2

theorem lineNumber_lawful : lineNumber.Lawful where
  reads := by
    intro r row r'
    cases row
    simp [lineNumber, passes_append]
  length_encode := by simp [lineNumber]

theorem localVariable_lawful : localVariable.Lawful where
  reads := by
    intro r row r'
    cases row
    simp [localVariable, passes_append]
  length_encode := by simp [localVariable]

theorem innerClass_lawful : innerClass.Lawful where
  reads := by
    intro r row r'
    cases row
    simp [innerClass, passes_append]
  length_encode := by simp [innerClass]

theorem handler_lawful : handler.Lawful where
  reads := by
    intro r row r'
    cases row
    simp [handler, passes_append]
  length_encode := by simp [handler]

end RowFormat

namespace Payload

variable {α : Type} {p : Pool} {a : Attribute} {info name : Bytes}

theorem length_encodeTable {encode : α → Bytes} {width : Nat}
    (h : ∀ row, (encode row).length = width) (table : List α) :
    (encodeTable encode table).length = 2 + width * table.length := by
  rw [encodeTable, List.length_append, length_u2, length_flatMap h]

@[simp] theorem within_ok_iff {size : Nat} {step : Read α} {v : α} {r r' : Reader} :
    within name size step r = .ok v r' ↔ step r = .ok v r' := mapError_ok_iff

theorem within_reads {step : Read α} {valid : α → Prop} {encode : α → Bytes}
    (h : Reads step valid encode) (name : Bytes) (size : Nat) :
    Reads (within name size step) valid encode := by
  intro r v r'
  rw [within_ok_iff]
  exact h r v r'

theorem rowCount_of_passes {count : UInt16} {mid : Reader}
    (h : Reader.Passes { source := .memory, rest := info } (Binary.u2 count) mid) :
    rowCount info = count.toNat := by
  have hread : Read.runOn Read.u2 info = .ok count := runOn_ok_iff.mpr ⟨mid, u2_ok_iff.mpr h⟩
  rw [rowCount, hread]

/-- Only what a table is written as is parsed as that table. -/
theorem rows_ok_iff {format : RowFormat α} (h : format.Lawful) {table : List α} :
    rows format name p a = .ok table ↔
      a.name p = .ok name ∧ table.length ≤ 65535 ∧ encodeTable format.encode table = a.info := by
  have hrow := within_reads h.reads name a.info.length
  simp only [rows, checkName, checkSize, Result.bind_ok_iff, Result.ensure_ok_iff, runOn_ok_iff,
    bind_ok_iff, within_ok_iff, u2_ok_iff]
  constructor
  · rintro ⟨_, ⟨_, hname, rfl⟩, _, hsize, r', count, mid, hcount, hrows⟩
    rw [rowCount_of_passes hcount] at hsize hrows
    obtain ⟨⟨hlen, -⟩, -⟩ := (hrow.times _ _ _ _).mp hrows
    obtain ⟨hfits, hpass⟩ := hrow.counted.mp ⟨count, mid, hcount, hrows⟩
    -- The size was measured before, so the rows reach the end.
    have hend : r'.position = a.info.length := by
      rw [hpass.position, Nat.zero_add, length_encodeTable h.length_encode, hlen, hsize]
    exact ⟨hname, hfits.1, (eq_all_of_passes hpass hend).1⟩
  · rintro ⟨hname, hlen, hinfo⟩
    have hpass := passes_all .memory a.info
    nth_rewrite 2 [← hinfo] at hpass
    obtain ⟨count, mid, hcount, hrows⟩ := hrow.counted.mpr ⟨⟨hlen, fun _ _ => trivial⟩, hpass⟩
    obtain ⟨⟨hsame, -⟩, -⟩ := (hrow.times _ _ _ _).mp hrows
    rw [rowCount_of_passes hcount]
    refine ⟨(), ⟨_, hname, rfl⟩, (), ?_, _, count, mid, hcount, hrows⟩
    rw [← hinfo, length_encodeTable h.length_encode, hsame]

-- ---------------------------------------------------------------------------
-- Bootstrap methods
-- ---------------------------------------------------------------------------

theorem readBootstrapMethod_reads (size : Nat) :
    Reads (readBootstrapMethod size) (·.arguments.length ≤ 65535) BootstrapMethod.encode := by
  have hword : Reads (within AttributeName.bootstrapMethods size Read.u2) (fun _ => True)
      Binary.u2 :=
    within_reads RowFormat.index_lawful.reads _ size
  intro r m r'
  simp only [readBootstrapMethod, bind_ok_iff, within_ok_iff, u2_ok_iff, pure_ok_iff]
  constructor
  · rintro ⟨reference, mid, hreference, count, _, hcount, arguments, _, harguments, rfl, rfl⟩
    obtain ⟨hfits, hpass⟩ := hword.counted.mp ⟨count, _, hcount, harguments⟩
    exact ⟨hfits.1, hreference.trans hpass⟩
  · rintro ⟨hlen, hpass⟩
    obtain ⟨mid, hreference, harguments⟩ := passes_append.mp hpass
    obtain ⟨count, last, hcount, hread⟩ :=
      hword.counted.mpr ⟨⟨hlen, fun _ _ => trivial⟩, harguments⟩
    exact ⟨_, mid, hreference, count, last, hcount, _, r', hread, rfl, rfl⟩

theorem bootstrapMethods_ok_iff {methods : List BootstrapMethod} :
    bootstrapMethods p a = .ok methods ↔
      a.name p = .ok AttributeName.bootstrapMethods ∧
        FitsTable (·.arguments.length ≤ 65535) methods ∧
        encodeTable BootstrapMethod.encode methods = a.info := by
  have hmethod := readBootstrapMethod_reads a.info.length
  simp only [bootstrapMethods, readBootstrapMethods, checkName, finish, Result.bind_ok_iff,
    Result.ensure_ok_iff, runOn_ok_iff, bind_ok_iff, within_ok_iff, u2_ok_iff, position_ok_iff,
    ensure_ok_iff, pure_ok_iff]
  constructor
  · rintro ⟨_, ⟨_, hname, rfl⟩, _, count, mid, hcount, _, last, hmethods, _, _,
      ⟨_, _, ⟨rfl, rfl⟩, hend, rfl⟩, rfl, rfl⟩
    obtain ⟨hfits, hpass⟩ := hmethod.counted.mp ⟨count, mid, hcount, hmethods⟩
    exact ⟨hname, hfits, (eq_all_of_passes hpass hend).1⟩
  · rintro ⟨hname, hfits, hinfo⟩
    have hpass := passes_all .memory a.info
    nth_rewrite 2 [← hinfo] at hpass
    obtain ⟨count, mid, hcount, hmethods⟩ := hmethod.counted.mpr ⟨hfits, hpass⟩
    exact ⟨(), ⟨_, hname, rfl⟩, _, count, mid, hcount, _, _, hmethods, (), _,
      ⟨_, _, ⟨rfl, rfl⟩, rfl, rfl⟩, rfl, rfl⟩

-- ---------------------------------------------------------------------------
-- Wrong sizes
-- ---------------------------------------------------------------------------

/-- The outermost fault is the size of data that is decoded, and names no class. -/
def Missized (e : Error) : Prop :=
  ∃ f, e.fault? = some f ∧ f.phase = .decode ∧ f.kind = .dataSize ∧ f.className = []

section

variable {P : Error → Prop} (hP : ∀ e, Missized e → P e)

include hP

theorem checkSize_onlyFails (name : Bytes) (want got : Nat) :
    Result.OnlyFails P (checkSize name want got) :=
  .ensure (hP _ ⟨_, rfl, rfl, rfl, rfl⟩)

theorem within_onlyFails (name : Bytes) (size : Nat) (step : Read α) :
    Read.OnlyFails P (within name size step) :=
  .mapError (fun _ _ => hP _ ⟨_, rfl, rfl, rfl, rfl⟩) step

theorem finish_onlyFails (name : Bytes) (size : Nat) : Read.OnlyFails P (finish name size) :=
  .bind .position fun _ => .ensure (hP _ ⟨_, rfl, rfl, rfl, rfl⟩)

theorem rows_onlyFails (hname : Result.OnlyFails P (checkName p a name)) (format : RowFormat α) :
    Result.OnlyFails P (rows format name p a) := by
  refine .bind hname fun _ => .bind (checkSize_onlyFails hP _ _ _) fun _ => ?_
  have hrows : Read.OnlyFails P (do
      let _ ← within name a.info.length Read.u2
      Read.times (within name a.info.length format.read) (rowCount a.info)) :=
    .bind (within_onlyFails hP _ _ _) fun _ => .times (within_onlyFails hP _ _ _) _
  exact hrows.runOn _ _

theorem bootstrapMethods_onlyFails
    (hname : Result.OnlyFails P (checkName p a AttributeName.bootstrapMethods)) :
    Result.OnlyFails P (bootstrapMethods p a) := by
  have hword := within_onlyFails hP AttributeName.bootstrapMethods a.info.length Read.u2
  have hmethod : Read.OnlyFails P (readBootstrapMethod a.info.length) :=
    .bind hword fun _ => .bind hword fun _ => .bind (.times hword _) fun _ => .pure _
  have hmethods : Read.OnlyFails P (readBootstrapMethods a.info.length) :=
    .bind hword fun _ => .bind (.times hmethod _) fun _ =>
      .bind (finish_onlyFails hP _ _) fun _ => .pure _
  exact .bind hname fun _ => hmethods.runOn _ _

end

-- ---------------------------------------------------------------------------
-- Exact parsing
-- ---------------------------------------------------------------------------

/-- Under the name, exactly the bytes that are written for a valid value are parsed, as that
value. All other bytes are refused for their size. -/
def ParsesExactly {β : Type} (parse : Pool → Attribute → Result β) (name : Bytes)
    (valid : β → Prop) (encode : β → Bytes) : Prop :=
  ∀ p a, a.name p = .ok name →
    (∀ v, parse p a = .ok v ↔ valid v ∧ encode v = a.info) ∧
      ((∀ v, valid v → encode v ≠ a.info) →
        ∃ e, parse p a = .error e ∧ e.Reports .decode .dataSize)

theorem checkName_of_name (hname : a.name p = .ok name) : checkName p a name = .ok () := by
  simp [checkName, hname]

theorem parsesExactly_of {β : Type} {parse : Pool → Attribute → Result β} {valid : β → Prop}
    {encode : β → Bytes}
    (hok : ∀ p a v, parse p a = .ok v ↔ a.name p = .ok name ∧ valid v ∧ encode v = a.info)
    (hfails : ∀ p a, Result.OnlyFails Missized (checkName p a name) →
      Result.OnlyFails Missized (parse p a)) :
    ParsesExactly parse name valid encode := by
  intro p a hname
  have hparse (v : β) : parse p a = .ok v ↔ valid v ∧ encode v = a.info := by
    rw [hok, and_iff_right hname]
  refine ⟨hparse, fun hnone => ?_⟩
  cases h : parse p a with
  | ok v =>
    obtain ⟨hvalid, hsame⟩ := (hparse v).mp h
    exact absurd hsame (hnone v hvalid)
  | error e =>
    have hchecked : Result.OnlyFails Missized (checkName p a name) := by
      rw [checkName_of_name hname]
      exact .pure ()
    obtain ⟨f, hfault, hphase, hkind, -⟩ := hfails p a hchecked e h
    exact ⟨e, rfl, f, hfault, hphase, hkind⟩

theorem rows_parsesExactly {format : RowFormat α} (h : format.Lawful) (name : Bytes) :
    ParsesExactly (rows format name) name (·.length ≤ 65535) (encodeTable format.encode) :=
  parsesExactly_of (fun _ _ _ => rows_ok_iff h) fun _ _ hname =>
    rows_onlyFails (fun _ => id) hname format

theorem tables_parse_exactly :
    ParsesExactly lineNumbers AttributeName.lineNumberTable (·.length ≤ 65535)
      (encodeTable RowFormat.lineNumber.encode) ∧
    ParsesExactly localVariables AttributeName.localVariableTable (·.length ≤ 65535)
      (encodeTable RowFormat.localVariable.encode) ∧
    ParsesExactly exceptions AttributeName.exceptions (·.length ≤ 65535)
      (encodeTable RowFormat.index.encode) ∧
    ParsesExactly innerClasses AttributeName.innerClasses (·.length ≤ 65535)
      (encodeTable RowFormat.innerClass.encode) ∧
    ParsesExactly bootstrapMethods AttributeName.bootstrapMethods
      (FitsTable (·.arguments.length ≤ 65535)) (encodeTable BootstrapMethod.encode) :=
  ⟨rows_parsesExactly RowFormat.lineNumber_lawful _,
    rows_parsesExactly RowFormat.localVariable_lawful _,
    rows_parsesExactly RowFormat.index_lawful _,
    rows_parsesExactly RowFormat.innerClass_lawful _,
    parsesExactly_of (fun _ _ _ => bootstrapMethods_ok_iff) fun _ _ hname =>
      bootstrapMethods_onlyFails (fun _ => id) hname⟩

def twoMethods : List BootstrapMethod := [⟨3, [1, 2]⟩, ⟨4, []⟩]

def twoMethodsInfo : Bytes := [0, 2, 0, 3, 0, 2, 0, 1, 0, 2, 0, 4, 0, 0]

def bootstrapPool : Pool := ⟨[none, some (.utf8 AttributeName.bootstrapMethods)]⟩

theorem tables_parse_exactly_bootstrap :
    bootstrapMethods bootstrapPool ⟨1, twoMethodsInfo⟩ = .ok twoMethods ∧
      ∀ info ∈ [twoMethodsInfo.dropLast, twoMethodsInfo ++ [0]],
        ∃ e, bootstrapMethods bootstrapPool ⟨1, info⟩ = .error e ∧
          e.Reports .decode .dataSize := by
  obtain ⟨-, -, -, -, hmethods⟩ := tables_parse_exactly
  have hunparsed : ∀ info ∈ [twoMethodsInfo.dropLast, twoMethodsInfo ++ [0]],
      (bootstrapMethods bootstrapPool ⟨1, info⟩).toOption = none := by decide
  constructor
  · exact ((hmethods bootstrapPool ⟨1, twoMethodsInfo⟩ rfl).1 twoMethods).mpr
      ⟨by decide, by decide⟩
  · intro info hinfo
    obtain ⟨hparse, hrefuse⟩ := hmethods bootstrapPool ⟨1, info⟩ rfl
    refine hrefuse fun v hvalid hsame => ?_
    have hnone := hunparsed info hinfo
    rw [(hparse v).mpr ⟨hvalid, hsame⟩] at hnone
    cases hnone

end Payload
end ClassHeader
