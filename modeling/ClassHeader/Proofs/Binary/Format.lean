import ClassHeader.Binary.Shrinks
import Mathlib

/-!
# Steps that read a format

A format is a set of values and the bytes that stand for each. `Reads` says that
a step and a format agree in both directions: the step accepts the bytes of
every value of the format, whatever follows them, and it accepts nothing else.

The laws below read the success of a step as an equivalence, one for each
combinator, so that the format of a composed step is found by rewriting.
Nothing is said here about the error of a step that fails.
-/

namespace ClassHeader.Binary

-- ---------------------------------------------------------------------------
-- Big-endian numbers
-- ---------------------------------------------------------------------------

@[simp] theorem toNat_nil : toNat [] = 0 := rfl

theorem toNat_concat (data : Bytes) (b : UInt8) :
    toNat (data ++ [b]) = toNat data * 256 + b.toNat := by
  simp [toNat, List.foldl_append]

@[simp] theorem length_ofNat (width n : Nat) : (ofNat width n).length = width := by
  induction width generalizing n with
  | zero => rfl
  | succ width ih => simp [ofNat, ih]

theorem toNat_ofNat (width n : Nat) : toNat (ofNat width n) = n % 256 ^ width := by
  induction width generalizing n with
  | zero => simp [ofNat, Nat.mod_one]
  | succ width ih =>
    have hsplit : n % 256 ^ (width + 1) = n % 256 + 256 * (n / 256 % 256 ^ width) := by
      rw [Nat.pow_succ', Nat.mod_mul]
    rw [ofNat, toNat_concat, ih, UInt8.toNat_ofNat', hsplit]
    omega

theorem toNat_lt (data : Bytes) : toNat data < 256 ^ data.length := by
  induction data using List.reverseRecOn with
  | nil => simp
  | append_singleton data b ih =>
    have hb : b.toNat < 256 := b.toNat_lt
    simp only [toNat_concat, List.length_append, List.length_singleton, Nat.pow_succ]
    omega

theorem ofNat_toNat (data : Bytes) : ofNat data.length (toNat data) = data := by
  induction data using List.reverseRecOn with
  | nil => rfl
  | append_singleton data b ih =>
    have hb : b.toNat < 256 := b.toNat_lt
    have hdiv : (toNat data * 256 + b.toNat) / 256 = toNat data := by omega
    have hlow : UInt8.ofNat (toNat data * 256 + b.toNat) = b := by
      apply UInt8.toNat_inj.mp
      rw [UInt8.toNat_ofNat']
      omega
    rw [List.length_append, List.length_singleton, ofNat, toNat_concat, hdiv, hlow, ih]

@[simp] theorem length_u1 (v : UInt8) : (u1 v).length = 1 := rfl
@[simp] theorem length_u2 (v : UInt16) : (u2 v).length = 2 := length_ofNat 2 _
@[simp] theorem length_u4 (v : UInt32) : (u4 v).length = 4 := length_ofNat 4 _

@[simp] theorem ofNat_toNat_u2 (v : UInt16) : UInt16.ofNat (toNat (u2 v)) = v := by
  have hlt : v.toNat < 256 ^ 2 := v.toNat_lt
  rw [u2, toNat_ofNat, Nat.mod_eq_of_lt hlt, UInt16.ofNat_toNat]

@[simp] theorem ofNat_toNat_u4 (v : UInt32) : UInt32.ofNat (toNat (u4 v)) = v := by
  have hlt : v.toNat < 256 ^ 4 := v.toNat_lt
  rw [u4, toNat_ofNat, Nat.mod_eq_of_lt hlt, UInt32.ofNat_toNat]

theorem u2_ofNat_toNat {data : Bytes} (h : data.length = 2) :
    u2 (UInt16.ofNat (toNat data)) = data := by
  have hlt : toNat data < 2 ^ 16 := by simpa [h] using toNat_lt data
  rw [u2, UInt16.toNat_ofNat', Nat.mod_eq_of_lt hlt, ← h, ofNat_toNat]

theorem u4_ofNat_toNat {data : Bytes} (h : data.length = 4) :
    u4 (UInt32.ofNat (toNat data)) = data := by
  have hlt : toNat data < 2 ^ 32 := by simpa [h] using toNat_lt data
  rw [u4, UInt32.toNat_ofNat', Nat.mod_eq_of_lt hlt, ← h, ofNat_toNat]

theorem length_flatMap {α : Type} {encode : α → Bytes} {width : Nat}
    (h : ∀ a, (encode a).length = width) (as : List α) :
    (as.flatMap encode).length = width * as.length := by
  induction as with
  | nil => rfl
  | cons a as ih =>
    rw [List.flatMap_cons, List.length_append, h, ih, List.length_cons, Nat.mul_succ, Nat.add_comm]

-- ---------------------------------------------------------------------------
-- Passing over bytes
-- ---------------------------------------------------------------------------

/-- `r'` is where `r` stands once it has read exactly `data`. -/
structure Reader.Passes (r : Reader) (data : Bytes) (r' : Reader) : Prop where
  rest : r.rest = data ++ r'.rest
  position : r'.position = r.position + data.length
  source : r'.source = r.source

namespace Reader

variable {r r' : Reader} {data first second : Bytes}

@[simp] theorem passes_nil : r.Passes [] r' ↔ r = r' := by
  constructor
  · rintro ⟨hrest, hposition, hsource⟩
    cases r
    cases r'
    simp_all
  · rintro rfl
    exact ⟨rfl, rfl, rfl⟩

theorem Passes.trans {mid : Reader} (h : r.Passes first mid) (h' : mid.Passes second r') :
    r.Passes (first ++ second) r' where
  rest := by rw [h.rest, h'.rest, List.append_assoc]
  position := by rw [h'.position, h.position, List.length_append, Nat.add_assoc]
  source := h'.source.trans h.source

theorem passes_append :
    r.Passes (first ++ second) r' ↔ ∃ mid, r.Passes first mid ∧ mid.Passes second r' := by
  constructor
  · intro h
    refine ⟨⟨r.source, second ++ r'.rest, r.position + first.length⟩,
      ⟨by simpa using h.rest, rfl, rfl⟩, ⟨rfl, ?_, h.source⟩⟩
    simpa [Nat.add_assoc] using h.position
  · rintro ⟨mid, h, h'⟩
    exact h.trans h'

theorem Passes.eq_of_rest_nil (h : r.Passes data r') (hend : r'.rest = []) : data = r.rest := by
  simpa [hend] using h.rest.symm

theorem passes_all (source : Source) (data : Bytes) :
    Reader.Passes { source, rest := data } data
      { source, rest := [], position := data.length } :=
  ⟨by simp, by simp, rfl⟩

section

variable {source : Source} {info : Bytes}

theorem Passes.drop_position (h : Reader.Passes { source, rest := info } data r') :
    info.drop r'.position = r'.rest := by
  have hrest : info = data ++ r'.rest := h.rest
  have hposition : r'.position = 0 + data.length := h.position
  rw [hposition, Nat.zero_add, hrest, List.drop_left]

theorem eq_all_of_passes (h : Reader.Passes { source, rest := info } data r')
    (hend : r'.position = info.length) :
    data = info ∧ r' = { source, rest := [], position := info.length } := by
  have hrest : r'.rest = [] := by
    rw [← h.drop_position, hend, List.drop_length]
  obtain ⟨source', rest, position⟩ := r'
  cases hend
  cases hrest
  cases h.source
  exact ⟨h.eq_of_rest_nil rfl, rfl⟩

end

end Reader

-- ---------------------------------------------------------------------------
-- Steps
-- ---------------------------------------------------------------------------

namespace Read

variable {α β : Type} {r r' : Reader}

@[simp] theorem bind_ok_iff {step : Read α} {next : α → Read β} {b : β} :
    (step >>= next) r = .ok b r' ↔ ∃ a mid, step r = .ok a mid ∧ next a mid = .ok b r' := by
  refine ⟨bind_ok, ?_⟩
  rintro ⟨a, mid, hstep, hnext⟩
  simp only [Bind.bind, EStateM.bind, hstep, hnext]

@[simp] theorem pure_ok_iff {a b : α} : (pure a : Read α) r = .ok b r' ↔ a = b ∧ r = r' := by
  constructor
  · rintro ⟨⟩
    exact ⟨rfl, rfl⟩
  · rintro ⟨rfl, rfl⟩
    rfl

@[simp] theorem map_ok_iff {f : α → β} {step : Read α} {b : β} :
    (f <$> step) r = .ok b r' ↔ ∃ a, step r = .ok a r' ∧ f a = b := by
  rw [map_eq_pure_bind, bind_ok_iff]
  constructor
  · rintro ⟨a, mid, hstep, rfl, rfl⟩
    exact ⟨a, hstep, rfl⟩
  · rintro ⟨a, hstep, rfl⟩
    exact ⟨a, r', hstep, rfl⟩

@[simp] theorem throw_ok_iff {e : Error} {a : α} :
    (throw e : Read α) r = .ok a r' ↔ False := by
  constructor
  · rintro ⟨⟩
  · exact False.elim

@[simp] theorem ensure_ok_iff {c : Prop} [Decidable c] {e : Error} {u : Unit} :
    (ensure c e : Read Unit) r = .ok u r' ↔ c ∧ r = r' := by
  by_cases h : c <;> simp [ensure, h]

@[simp] theorem ofExcept_ok_iff {result : Result α} {a : α} :
    (MonadExcept.ofExcept result : Read α) r = .ok a r' ↔ result = .ok a ∧ r = r' := by
  cases result with
  | ok b => simp [MonadExcept.ofExcept]
  | error e => simp [MonadExcept.ofExcept]

@[simp] theorem mapError_ok_iff {change : Nat → Error → Error} {step : Read α} {a : α} :
    mapError change step r = .ok a r' ↔ step r = .ok a r' := by
  refine ⟨mapError_ok, ?_⟩
  intro h
  simp only [mapError, h]

@[simp] theorem position_ok_iff {n : Nat} :
    position r = .ok n r' ↔ r.position = n ∧ r = r' := by
  constructor
  · rintro ⟨⟩
    exact ⟨rfl, rfl⟩
  · rintro ⟨rfl, rfl⟩
    rfl

@[simp] theorem take_ok_iff {n : Nat} {got : Bytes} :
    take n r = .ok got r' ↔ got.length = n ∧ r.Passes got r' := by
  constructor
  · intro h
    simp only [take] at h
    split at h
    · rename_i hlen
      cases h
      exact ⟨hlen, by simp, by simp [hlen], rfl⟩
    · cases h
  · rintro ⟨rfl, h⟩
    obtain ⟨source, rest, place⟩ := r'
    obtain ⟨hrest, rfl, rfl⟩ := h
    simp [take, hrest]

-- ---------------------------------------------------------------------------
-- Words
-- ---------------------------------------------------------------------------

/-- All words are read in one way: their bytes are taken and their number is made a word. -/
theorem word_ok_iff {ω : Type} {width : Nat} {ofNumber : Nat → ω} {number : ω → Nat}
    (hof : ∀ v, ofNumber (number v) = v) (hnumber : ∀ n, number (ofNumber n) = n % 256 ^ width)
    {v : ω} : (do return ofNumber (toNat (← take width)) : Read ω) r = .ok v r' ↔
      r.Passes (ofNat width (number v)) r' := by
  simp only [bind_ok_iff, take_ok_iff, pure_ok_iff]
  constructor
  · rintro ⟨got, mid, ⟨hlen, h⟩, rfl, rfl⟩
    have hlt : toNat got < 256 ^ width := hlen ▸ toNat_lt got
    rw [hnumber, Nat.mod_eq_of_lt hlt, ← hlen, ofNat_toNat]
    exact h
  · intro h
    refine ⟨_, r', ⟨length_ofNat _ _, h⟩, ?_, rfl⟩
    rw [toNat_ofNat, ← hnumber, hof, hof]

@[simp] theorem u1_ok_iff {v : UInt8} : u1 r = .ok v r' ↔ r.Passes (Binary.u1 v) r' := by
  have h : ofNat 1 v.toNat = Binary.u1 v := by simp [ofNat, Binary.u1]
  rw [← h]
  exact word_ok_iff (fun _ => UInt8.ofNat_toNat) fun _ => UInt8.toNat_ofNat'

@[simp] theorem u2_ok_iff {v : UInt16} : u2 r = .ok v r' ↔ r.Passes (Binary.u2 v) r' :=
  word_ok_iff (fun _ => UInt16.ofNat_toNat) fun _ => UInt16.toNat_ofNat'

@[simp] theorem u4_ok_iff {v : UInt32} : u4 r = .ok v r' ↔ r.Passes (Binary.u4 v) r' :=
  word_ok_iff (fun _ => UInt32.ofNat_toNat) fun _ => UInt32.toNat_ofNat'

@[simp] theorem s2_ok_iff {v : Int16} :
    s2 r = .ok v r' ↔ r.Passes (Binary.u2 v.toUInt16) r' := by
  simp only [s2, bind_ok_iff, u2_ok_iff, pure_ok_iff]
  constructor
  · rintro ⟨word, mid, h, rfl, rfl⟩
    exact h
  · intro h
    exact ⟨_, _, h, rfl, rfl⟩

@[simp] theorem s4_ok_iff {v : Int32} :
    s4 r = .ok v r' ↔ r.Passes (Binary.u4 v.toUInt32) r' := by
  simp only [s4, bind_ok_iff, u4_ok_iff, pure_ok_iff]
  constructor
  · rintro ⟨word, mid, h, rfl, rfl⟩
    exact h
  · intro h
    exact ⟨_, _, h, rfl, rfl⟩

-- ---------------------------------------------------------------------------
-- Formats
-- ---------------------------------------------------------------------------

/-- The step accepts exactly the bytes that `encode` gives for a valid value, and returns that
value. -/
def Reads (step : Read α) (valid : α → Prop) (encode : α → Bytes) : Prop :=
  ∀ r a r', step r = .ok a r' ↔ valid a ∧ r.Passes (encode a) r'

theorem Reads.times {step : Read α} {valid : α → Prop} {encode : α → Bytes}
    (h : Reads step valid encode) (n : Nat) :
    Reads (times step n) (fun as => as.length = n ∧ ∀ a ∈ as, valid a)
      fun as => as.flatMap encode := by
  induction n with
  | zero =>
    intro r as r'
    cases as <;> simp [Read.times]
  | succ n ih =>
    intro r as r'
    simp only [Read.times, bind_ok_iff, pure_ok_iff]
    constructor
    · rintro ⟨a, mid, hstep, others, last, htimes, rfl, rfl⟩
      obtain ⟨hvalid, hpass⟩ := (h ..).mp hstep
      obtain ⟨⟨rfl, hothers⟩, hrest⟩ := (ih ..).mp htimes
      exact ⟨⟨rfl, by simpa using ⟨hvalid, hothers⟩⟩, hpass.trans hrest⟩
    · rintro ⟨⟨hlen, hvalid⟩, hpass⟩
      cases as with
      | nil => cases hlen
      | cons a others =>
        obtain ⟨mid, hfirst, hrest⟩ := Reader.passes_append.mp hpass
        refine ⟨a, mid, (h ..).mpr ⟨hvalid a (by simp), hfirst⟩, others, r',
          (ih ..).mpr ⟨⟨by simpa using hlen, fun x hx => ?_⟩, hrest⟩, rfl, rfl⟩
        exact hvalid x (List.mem_cons_of_mem _ hx)

theorem runOn_ok_iff {step : Read α} {data : Bytes} {source : Source} {a : α} :
    runOn step data source = .ok a ↔ ∃ r', step { source, rest := data } = .ok a r' := by
  unfold runOn
  split
  · rename_i b last heq
    simp [heq]
  · rename_i heq
    simp [heq]

end Read
end ClassHeader.Binary
