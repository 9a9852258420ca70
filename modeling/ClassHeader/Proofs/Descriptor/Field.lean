import ClassHeader.Descriptor
import ClassHeader.Proofs.Result

/-!
# Field descriptors

`fieldAt_ok_iff`: reading the front of a text accepts exactly the descriptors of
well-formed types, whatever follows them. A descriptor says by itself where it ends, so
one type is read off a text, and writing the type again gives the text back.
-/

namespace ClassHeader

open Ascii

-- ---------------------------------------------------------------------------
-- Types and their descriptors
-- ---------------------------------------------------------------------------

theorem Primitive.ofLetter?_eq_some_iff {c : UInt8} {type : Primitive} :
    Primitive.ofLetter? c = some type ↔ c = type.letter := by
  constructor
  · intro h
    simpa [eq_comm] using List.find?_some h
  · rintro rfl
    cases type <;> rfl

namespace FieldType

/-- Class names are not empty and hold no mark that ends them. -/
def WellFormed : FieldType → Prop
  | .primitive _ => True
  | .object className => className ≠ [] ∧ semicolon ∉ className
  | .array component => component.WellFormed

def below? (t : FieldType) : Nat → Option FieldType
  | 0 => some t
  | k + 1 => (t.below? k).bind component?

theorem below?_array (component : FieldType) (k : Nat) :
    (array component).below? (k + 1) = component.below? k := by
  induction k with
  | zero => rfl
  | succ k ih => rw [below?, ih, below?]

theorem below?_succ {t : FieldType} (h : t.component? = none) (k : Nat) :
    t.below? (k + 1) = none := by
  induction k with
  | zero => exact h
  | succ k ih => rw [below?, ih, Option.bind_none]

theorem map_descriptor_below? (t : FieldType) (k : Nat) :
    (t.below? k).map descriptor =
      if k ≤ t.dimensions then some (t.descriptor.drop k) else none := by
  induction t generalizing k with
  | primitive | object =>
    cases k with
    | zero => rfl
    | succ k =>
      rw [below?_succ rfl]
      rfl
  | array component ih =>
    cases k with
    | zero => rfl
    | succ k => simp [below?_array, ih, dimensions, descriptor]

theorem className?_eq_some_iff {t : FieldType} {name : Bytes} :
    t.className? = some name ↔ t.element = .object name := by
  induction t with
  | primitive | object => simp [className?, element]
  | array component ih => exact ih

theorem descriptor_eq (t : FieldType) :
    t.descriptor = List.replicate t.dimensions openBracket ++ t.element.descriptor := by
  induction t with
  | primitive | object => rfl
  | array component ih => simp [descriptor, dimensions, element, List.replicate_succ, ← ih]

theorem wellFormed_element {t : FieldType} : t.element.WellFormed ↔ t.WellFormed := by
  induction t with
  | primitive | object => rfl
  | array component ih => exact ih

end FieldType

-- ---------------------------------------------------------------------------
-- Reading
-- ---------------------------------------------------------------------------

namespace Descriptor

variable {whole s rest : Bytes} {t : FieldType}

theorem eq_append_of_dropWhile {mark b : UInt8} (h : s.dropWhile (· ≠ mark) = b :: rest) :
    s = s.takeWhile (· ≠ mark) ++ mark :: rest := by
  have hhead := List.head?_dropWhile_not (· ≠ mark) s
  rw [h] at hhead
  have hmark : b = mark := by simpa using hhead
  rw [← hmark, ← h, hmark, List.takeWhile_append_dropWhile]

theorem notMem_takeWhile {mark : UInt8} : mark ∉ s.takeWhile (· ≠ mark) := by
  intro h
  simpa using List.mem_takeWhile_imp h

theorem takeWhile_and_dropWhile_append {mark : UInt8} (h : mark ∉ s) :
    (s ++ mark :: rest).takeWhile (· ≠ mark) = s ∧
      (s ++ mark :: rest).dropWhile (· ≠ mark) = mark :: rest := by
  induction s with
  | nil => simp
  | cons b s ih =>
    simp only [List.mem_cons, not_or] at h
    obtain ⟨hb, hs⟩ := h
    simpa [Ne.symm hb] using ih hs

theorem descriptor_object_append (name rest : Bytes) :
    (FieldType.object name).descriptor ++ rest = classMark :: (name ++ semicolon :: rest) := by
  simp [FieldType.descriptor]

theorem fieldAt_ok (h : fieldAt whole s = .ok (t, rest)) :
    t.WellFormed ∧ s = t.descriptor ++ rest := by
  induction s generalizing t with
  | nil => cases h
  | cons c s ih =>
    unfold fieldAt at h
    split at h
    · rename_i hbracket
      simp only [Result.bind_ok_iff, Result.pure_ok_iff] at h
      obtain ⟨⟨component, behind⟩, hcomponent, h⟩ := h
      cases h
      obtain ⟨hwell, rfl⟩ := ih hcomponent
      exact ⟨hwell, by simp [hbracket, FieldType.descriptor]⟩
    · split at h
      · rename_i hmark
        dsimp only at h
        split at h
        · cases h
        · rename_i b behind hdrop
          split at h
          · cases h
          · rename_i hempty
            cases h
            refine ⟨⟨hempty, notMem_takeWhile⟩, ?_⟩
            rw [hmark, descriptor_object_append, ← eq_append_of_dropWhile hdrop]
      · split at h
        · rename_i type htype
          cases h
          exact ⟨trivial, by simp [Primitive.ofLetter?_eq_some_iff.mp htype, FieldType.descriptor]⟩
        · cases h

theorem fieldAt_descriptor (h : t.WellFormed) :
    fieldAt whole (t.descriptor ++ rest) = .ok (t, rest) := by
  induction t with
  | primitive type => cases type <;> rfl
  | object name =>
    obtain ⟨hne, hmark⟩ := h
    obtain ⟨htake, hdrop⟩ := @takeWhile_and_dropWhile_append name rest semicolon hmark
    rw [descriptor_object_append, fieldAt, if_neg (by decide), if_pos rfl]
    simp only [htake, hdrop, if_neg hne]
    rfl
  | array component ih =>
    rw [FieldType.descriptor, List.cons_append, fieldAt, if_pos rfl, ih h]
    rfl

theorem fieldAt_ok_iff :
    fieldAt whole s = .ok (t, rest) ↔ t.WellFormed ∧ s = t.descriptor ++ rest := by
  constructor
  · exact fieldAt_ok
  · rintro ⟨h, rfl⟩
    exact fieldAt_descriptor h

end Descriptor

-- ---------------------------------------------------------------------------
-- Whole texts
-- ---------------------------------------------------------------------------

namespace Descriptor

def letters : List (Bytes × Primitive) :=
  [(text "B", .byte), (text "C", .char), (text "D", .double), (text "F", .float),
    (text "I", .int), (text "J", .long), (text "S", .short), (text "Z", .boolean)]

inductive Base : Bytes → FieldType → Prop
  | letter {s : Bytes} {type : Primitive} : (s, type) ∈ letters → Base s (.primitive type)
  | name {className : Bytes} : className ≠ [] → semicolon ∉ className →
    Base (text "L" ++ className ++ text ";") (.object className)

theorem mem_letters {s : Bytes} {type : Primitive} : (s, type) ∈ letters ↔ s = [type.letter] := by
  constructor
  · intro h
    simp only [letters, List.mem_cons, Prod.mk.injEq, List.not_mem_nil, or_false] at h
    rcases h with ⟨rfl, rfl⟩ | ⟨rfl, rfl⟩ | ⟨rfl, rfl⟩ | ⟨rfl, rfl⟩ | ⟨rfl, rfl⟩ | ⟨rfl, rfl⟩ |
      ⟨rfl, rfl⟩ | ⟨rfl, rfl⟩ <;> rfl
  · rintro rfl
    cases type <;> decide

theorem base_iff {s : Bytes} {t : FieldType} :
    Base s t ↔ t.WellFormed ∧ t.dimensions = 0 ∧ t.descriptor = s := by
  constructor
  · rintro (h | ⟨hne, hmark⟩)
    · exact ⟨trivial, rfl, (mem_letters.mp h).symm⟩
    · exact ⟨⟨hne, hmark⟩, rfl, rfl⟩
  · rintro ⟨hwell, hdims, rfl⟩
    cases t with
    | primitive type => exact .letter (mem_letters.mpr rfl)
    | object name => exact .name hwell.1 hwell.2
    | array component => cases hdims

end Descriptor

namespace FieldType

open Descriptor

variable {s : Bytes} {t : FieldType}

theorem descriptor_ne_nil (t : FieldType) : t.descriptor ≠ [] := by
  cases t <;> simp [descriptor]

/-- Reading a whole descriptor undoes writing the type. -/
theorem parse_ok_iff : parse s = .ok t ↔ t.WellFormed ∧ t.descriptor = s := by
  constructor
  · intro h
    unfold parse at h
    split_ifs at h
    simp only [Result.bind_ok_iff] at h
    obtain ⟨⟨found, rest⟩, hfound, h⟩ := h
    dsimp only at h
    split at h
    · rename_i hrest
      cases h
      cases hrest
      obtain ⟨hwell, htext⟩ := fieldAt_ok hfound
      exact ⟨hwell, by simpa using htext.symm⟩
    · cases h
  · rintro ⟨hwell, rfl⟩
    have hfound : fieldAt t.descriptor (t.descriptor ++ []) = .ok (t, []) :=
      fieldAt_descriptor hwell
    rw [List.append_nil] at hfound
    rw [parse, if_neg t.descriptor_ne_nil, hfound]
    rfl

theorem ofClassName_ok_iff : ofClassName s = .ok t ↔
    (s.head? = some openBracket ∧ parse s = .ok t) ∨
      (s ≠ [] ∧ semicolon ∉ s ∧ openBracket ∉ s ∧ t = .object s) := by
  cases s with
  | nil => simp [ofClassName]
  | cons c rest =>
    by_cases hc : c = openBracket
    · simp [ofClassName, hc]
    · have hmarks : ((c :: rest).any fun b => b = semicolon || b = openBracket) = true ↔
          semicolon ∈ c :: rest ∨ openBracket ∈ c :: rest := by
        simp only [List.any_eq_true, Bool.or_eq_true, decide_eq_true_eq, and_or_left, exists_or,
          exists_eq_right]
      have hhead : (c :: rest).head? ≠ some openBracket := by simpa using hc
      simp only [ofClassName, if_neg hc, hmarks, hhead, false_and, false_or]
      split_ifs with h
      · simp only [false_iff]
        tauto
      · simp only [Result.pure_ok_iff, ne_eq, reduceCtorEq, not_false_eq_true, true_and]
        rw [eq_comm]
        tauto

theorem brackets_descriptor (t : FieldType) :
    t.descriptor.takeWhile (· = openBracket) = List.replicate t.dimensions openBracket ∧
      t.descriptor.dropWhile (· = openBracket) = t.element.descriptor := by
  induction t with
  | primitive type => cases type <;> decide
  | object name => exact ⟨rfl, rfl⟩
  | array component ih => simpa [descriptor, dimensions, element, List.replicate_succ] using ih

theorem base_element (h : t.WellFormed) : Base t.element.descriptor t.element := by
  rw [base_iff, wellFormed_element]
  refine ⟨h, ?_, rfl⟩
  clear h
  induction t with
  | primitive | object => rfl
  | array component ih => exact ih

theorem exists_parse_iff : (∃ t, parse s = .ok t) ↔
    ∃ n base element, Base base element ∧ s = List.replicate n openBracket ++ base := by
  simp only [parse_ok_iff]
  constructor
  · rintro ⟨t, hwell, rfl⟩
    exact ⟨_, _, _, base_element hwell, t.descriptor_eq⟩
  · rintro ⟨n, base, element, hbase, rfl⟩
    obtain ⟨hwell, -, rfl⟩ := base_iff.mp hbase
    induction n with
    | zero => exact ⟨element, hwell, rfl⟩
    | succ n ih =>
      obtain ⟨t, ht, htext⟩ := ih
      exact ⟨.array t, ht, by rw [descriptor, htext]; rfl⟩

end FieldType

end ClassHeader
