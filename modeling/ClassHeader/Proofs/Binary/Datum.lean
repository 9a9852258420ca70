import ClassHeader.Binary.Reader
import ClassHeader.Proofs.Binary.Format

/-!
# Reading mixed words back

What a sequence of mixed words was written to is read back by the sequence of reads of the
same widths, from memory and from a stream alike. The reader stands at the length that was
written, after each datum and at the end, where nothing more can be read.
-/

namespace ClassHeader.Binary

-- ---------------------------------------------------------------------------
-- Data of one shape
-- ---------------------------------------------------------------------------

namespace Datum

variable {r r' : Reader}

theorem u8_of_passes {v : UInt64} (h : r.Passes (Binary.u8 v) r') : Read.u8 r = .ok v r' :=
  (Read.word_ok_iff (fun _ => UInt64.ofNat_toNat) fun _ => UInt64.toNat_ofNat').mpr h

theorem readLike_of_passes {d : Datum} (h : r.Passes d.encode r') : d.readLike r = .ok d r' := by
  cases d with
  | u1 v => exact Read.bind_ok_iff.mpr ⟨v, r', Read.u1_ok_iff.mpr h, rfl⟩
  | u2 v => exact Read.bind_ok_iff.mpr ⟨v, r', Read.u2_ok_iff.mpr h, rfl⟩
  | u4 v => exact Read.bind_ok_iff.mpr ⟨v, r', Read.u4_ok_iff.mpr h, rfl⟩
  | u8 v => exact Read.bind_ok_iff.mpr ⟨v, r', u8_of_passes h, rfl⟩
  | bytes data => exact Read.bind_ok_iff.mpr ⟨data, r', Read.take_ok_iff.mpr ⟨rfl, h⟩, rfl⟩

theorem mapM_readLike_of_passes {items : List Datum} (h : r.Passes (encodeAll items) r') :
    items.mapM readLike r = .ok items r' := by
  induction items generalizing r with
  | nil =>
    cases Reader.passes_nil.mp h
    rfl
  | cons d items ih =>
    rw [encodeAll, List.flatMap_cons, Reader.passes_append] at h
    obtain ⟨mid, hfirst, hrest⟩ := h
    rw [List.mapM_cons, Read.bind_ok_iff]
    refine ⟨d, mid, readLike_of_passes hfirst, ?_⟩
    exact Read.bind_ok_iff.mpr ⟨items, r', ih hrest, rfl⟩

theorem lengths_loop (items : List Datum) (written : Nat) (seen : List Nat) :
    (items.foldl (fun (written, seen) item =>
      let written := written + item.encode.length
      (written, seen ++ [written])) (written, seen)).2 =
    seen ++ items.inits.tail.map fun done => written + (encodeAll done).length := by
  induction items generalizing written seen with
  | nil => simp
  | cons d items ih =>
    have hinits : items.inits = [] :: items.inits.tail := by cases items <;> simp
    have hfirst : ∀ done, (encodeAll (d :: done)).length =
        d.encode.length + (encodeAll done).length := by simp [encodeAll]
    rw [List.foldl_cons, ih, List.inits_cons, List.tail_cons, hinits]
    simp only [List.tail_cons, List.map_cons, List.map_map, Function.comp_def, hfirst,
      Nat.add_assoc, List.append_assoc, List.singleton_append]
    rfl

theorem lengths_eq (items : List Datum) :
    lengths items = items.inits.tail.map fun done => (encodeAll done).length := by
  simpa [lengths] using lengths_loop items 0 []

theorem getLastD_lengths (items : List Datum) :
    (lengths items).getLastD 0 = (encodeAll items).length := by
  rw [lengths_eq]
  cases items using List.reverseRecOn with
  | nil => rfl
  | append_singleton items d =>
    have hinits : (items ++ [d]).inits.tail = items.inits.tail ++ [items ++ [d]] := by
      rw [List.inits_append, List.tail_append_of_ne_nil (by cases items <;> simp)]
      rfl
    rw [hinits, List.map_append, List.map_singleton, List.getLastD_concat]

end Datum

-- ---------------------------------------------------------------------------
-- Signed words
-- ---------------------------------------------------------------------------

def twosComplement (bits n : Nat) : Int := if n < 2 ^ (bits - 1) then n else n - 2 ^ bits

theorem toInt_eq_twosComplement {bits : Nat} (x : BitVec bits) (hbits : bits ≠ 0) :
    x.toInt = twosComplement bits x.toNat := by
  obtain ⟨below, rfl⟩ := Nat.exists_eq_succ_of_ne_zero hbits
  have hhalf : 2 * x.toNat < 2 ^ (below + 1) ↔ x.toNat < 2 ^ below := by omega
  rw [BitVec.toInt_eq_toNat_cond, twosComplement]
  simp [hhalf]

namespace Read

variable {ω σ : Type} {bits : Nat} {number : ω → Nat} {value : σ → Int} {unsigned : Read ω}

/-- A signed read fails as the unsigned one does, and otherwise gives the number that the same
bits are in two's complement. -/
structure Signs (bits : Nat) (number : ω → Nat) (value : σ → Int) (unsigned : Read ω)
    (signed : Read σ) : Prop where
  ok : ∀ r v r', unsigned r = .ok v r' →
    ∃ x, signed r = .ok x r' ∧ value x = twosComplement bits (number v)
  error : ∀ r e r', unsigned r = .error e r' → signed r = .error e r'

theorem Signs.convert {toSigned : ω → σ}
    (h : ∀ v, value (toSigned v) = twosComplement bits (number v)) :
    Signs bits number value unsigned (do return toSigned (← unsigned)) where
  ok r v r' hok := ⟨toSigned v, bind_ok_iff.mpr ⟨v, r', hok, rfl⟩, h v⟩
  error r e r' herror := by simp only [Bind.bind, EStateM.bind, herror]

theorem signs_s1 : Signs 8 UInt8.toNat Int8.toInt u1 s1 :=
  .convert fun v => toInt_eq_twosComplement v.toBitVec (by decide)

theorem signs_s2 : Signs 16 UInt16.toNat Int16.toInt u2 s2 :=
  .convert fun v => toInt_eq_twosComplement v.toBitVec (by decide)

theorem signs_s4 : Signs 32 UInt32.toNat Int32.toInt u4 s4 :=
  .convert fun v => toInt_eq_twosComplement v.toBitVec (by decide)

theorem u1_of_rest_nil {r : Reader} (h : r.rest = []) :
    u1 r = .error (failAt r (text "unexpected EOF")) r := by
  obtain ⟨source, rest, position⟩ := r
  cases h
  cases source <;> rfl

end Read

/-- What was written is read back, up to the end and no further. -/
theorem written_read_back (items : List Datum) (source : Source) :
    let written := Datum.encodeAll items
    let start : Reader := { source, rest := written }
    let last : Reader := { source, rest := [], position := written.length }
    items.mapM Datum.readLike start = .ok items last ∧
    (∀ done behind, items = done ++ behind → done.mapM Datum.readLike start =
      .ok done ⟨source, Datum.encodeAll behind, (Datum.encodeAll done).length⟩) ∧
    Datum.lengths items = items.inits.tail.map (fun done => (Datum.encodeAll done).length) ∧
    last.position = (Datum.lengths items).getLastD 0 ∧
    Read.u1 last = .error (Read.failAt last (text "unexpected EOF")) last ∧
    Read.Signs 8 UInt8.toNat Int8.toInt Read.u1 Read.s1 ∧
    Read.Signs 16 UInt16.toNat Int16.toInt Read.u2 Read.s2 ∧
    Read.Signs 32 UInt32.toNat Int32.toInt Read.u4 Read.s4 := by
  intro written start last
  refine ⟨Datum.mapM_readLike_of_passes (Reader.passes_all source written), ?_,
    Datum.lengths_eq items, (Datum.getLastD_lengths items).symm, Read.u1_of_rest_nil rfl,
    Read.signs_s1, Read.signs_s2, Read.signs_s4⟩
  rintro done behind rfl
  refine Datum.mapM_readLike_of_passes ⟨?_, ?_, rfl⟩
  · exact List.flatMap_append
  · exact (Nat.zero_add _).symm

end ClassHeader.Binary
