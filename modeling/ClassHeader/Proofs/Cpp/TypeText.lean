import ClassHeader.Proofs.Cpp.Members
import ClassHeader.Proofs.Descriptor.Field

/-!
# Text of types

Every type has a C++ text. Arrays put it between brackets, as deep as they are nested, so
the brackets of a text match; and an element whose name starts with a colon is kept apart
from the bracket before it, which would be read as one token with the colon. Types whose
class names are clear differ in their texts.
-/

namespace ClassHeader.Cpp.TypeRef

-- ---------------------------------------------------------------------------
-- Every type has a text
-- ---------------------------------------------------------------------------

/-- A name, used as it is or through a pointer. -/
structure Simple (t : TypeRef) : Prop where
  named : t.name ≠ []
  flags : t.flags = 0 ∨ t.flags = TypeFlags.pointer

theorem make_of_valid {name : Bytes} {flags : TypeFlags} (hname : name ≠ [])
    (hflags : flags.validate = .ok ()) : make name flags = .ok { name, flags } := by
  simp [make, hname, hflags]

theorem make_plain {name : Bytes} (h : name ≠ []) :
    ∃ t, make name 0 = .ok t ∧ t.Simple :=
  ⟨_, make_of_valid h (by decide), h, .inl rfl⟩

theorem make_pointer {name : Bytes} (h : name ≠ []) :
    ∃ t, make name TypeFlags.pointer = .ok t ∧ t.Simple :=
  ⟨_, make_of_valid h (by decide), h, .inr rfl⟩

theorem primitiveName_ne_nil (type : Primitive) : primitiveName type ≠ [] := by
  cases type <;> decide

theorem qualifiedName_ne_nil (className : Bytes) : qualifiedName className ≠ [] := by
  intro h
  have hhead := head?_qualifiedName className
  rw [h] at hhead
  cases hhead

theorem exists_ofField (type : FieldType) : ∃ t, ofField type = .ok t ∧ t.Simple := by
  induction type with
  | primitive type => exact make_plain (primitiveName_ne_nil type)
  | object className => exact make_pointer (qualifiedName_ne_nil className)
  | array component ih =>
    obtain ⟨element, helement, -⟩ := ih
    rw [ofField, helement, Result.ok_bind]
    refine make_pointer fun hempty => ?_
    rw [List.append_assoc, List.append_assoc, List.append_eq_nil_iff] at hempty
    exact absurd hempty.1 (by decide)

-- ---------------------------------------------------------------------------
-- Brackets
-- ---------------------------------------------------------------------------

/-- How many brackets `<` are open behind a text before which `depth` are; nothing when a `>` closes
none of them. -/
def openBehind? (depth : Nat) : Bytes → Option Nat
  | [] => some depth
  | b :: s =>
    if b = 60 then openBehind? (depth + 1) s
    else if b = 62 then
      match depth with
      | 0 => none
      | depth + 1 => openBehind? depth s
    else openBehind? depth s

theorem openBehind?_append (depth : Nat) (s t : Bytes) :
    openBehind? depth (s ++ t) = (openBehind? depth s).bind (openBehind? · t) := by
  induction s generalizing depth with
  | nil => rfl
  | cons b s ih =>
    simp only [List.cons_append, openBehind?]
    split_ifs
    · exact ih _
    · cases depth with
      | zero => rfl
      | succ depth => exact ih _
    · exact ih _

theorem openBehind?_names {s : Bytes} (h : ∀ b ∈ s, isNameByte b = true) (depth : Nat) :
    openBehind? depth s = some depth := by
  induction s with
  | nil => rfl
  | cons b s ih =>
    rw [List.forall_mem_cons] at h
    have hopening : b ≠ 60 := by
      rintro rfl
      exact absurd h.1 (by decide)
    have hclosing : b ≠ 62 := by
      rintro rfl
      exact absurd h.1 (by decide)
    simp only [openBehind?, if_neg hopening, if_neg hclosing, ih h.2]

theorem text_arrayOpening : text "::jaot::JArray<" = text "::jaot::JArray" ++ [60] := by
  decide

theorem openBehind?_cppType (type : FieldType) (depth : Nat) :
    openBehind? depth (cppType type) = some depth := by
  induction type generalizing depth with
  | primitive type => exact openBehind?_names (isNameByte_of_mem_primitiveName type) depth
  | object className =>
    rw [cppType, openBehind?_append, openBehind?_names fun b => isNameByte_of_mem_qualifiedName]
    rfl
  | array component ih =>
    have hname : ∀ b ∈ text "::jaot::JArray", isNameByte b = true := by decide +kernel
    have hspaced : openBehind? (depth + 1) (spaced (cppType component)) = some (depth + 1) := by
      rw [spaced, openBehind?_append]
      split_ifs <;> exact ih _
    have hopening : openBehind? depth (text "::jaot::JArray<") = some (depth + 1) := by
      rw [text_arrayOpening, openBehind?_append, openBehind?_names hname]
      rfl
    rw [cppType, openBehind?_append, hopening, Option.bind_some, openBehind?_append, hspaced]
    rfl

/-- The two bytes are not `<:`, which is read as one token. -/
def Apart (b c : UInt8) : Prop := ¬ (b = 60 ∧ c = Ascii.colon)

theorem isChain_apart_of_notMem {s : Bytes} (h : 60 ∉ s) : s.IsChain Apart := by
  rw [List.isChain_iff_forall_rel_of_append_cons_cons]
  rintro b c front back rfl ⟨rfl, -⟩
  exact h (by simp)

theorem isChain_apart_cppType (type : FieldType) : (cppType type).IsChain Apart := by
  have hnames : ∀ s : Bytes, (∀ b ∈ s, isNameByte b = true) → 60 ∉ s := fun s h hmem =>
    absurd (h 60 hmem) (by decide)
  induction type with
  | primitive type =>
    exact isChain_apart_of_notMem (hnames _ (isNameByte_of_mem_primitiveName type))
  | object className =>
    refine isChain_apart_of_notMem fun hmem => ?_
    rw [cppType, List.mem_append] at hmem
    rcases hmem with hname | hstar
    · exact hnames _ (fun b => isNameByte_of_mem_qualifiedName) hname
    · exact absurd hstar (by decide)
  | array component ih =>
    -- A colon at the front of the element stands behind a blank.
    have hhead : ∀ b ∈ (spaced (cppType component)).head?, b ≠ Ascii.colon := by
      rw [spaced]
      split_ifs with hcolon
      · rintro b hb rfl
        cases hb
      · rintro b hb rfl
        exact hcolon hb
    have hspaced : (spaced (cppType component)).IsChain Apart := by
      rw [spaced]
      split_ifs
      · rw [List.isChain_append]
        refine ⟨isChain_apart_of_notMem (by decide), ih, ?_⟩
        rintro b hb c - ⟨rfl, -⟩
        cases hb
      · exact ih
    have hopening : (text "::jaot::JArray<").IsChain Apart := by
      rw [text_arrayOpening, List.isChain_append]
      refine ⟨isChain_apart_of_notMem (by decide +kernel), List.isChain_singleton _, ?_⟩
      rintro b - c hc ⟨-, rfl⟩
      cases hc
    have hclosing : (text ">" ++ text "*").IsChain Apart := isChain_apart_of_notMem (by decide)
    rw [cppType, List.isChain_append, List.isChain_append]
    refine ⟨hopening, ⟨hspaced, hclosing, ?_⟩, ?_⟩
    · rintro b - c hc ⟨-, rfl⟩
      cases hc
    · rintro b - c hc ⟨-, rfl⟩
      rw [List.head?_append] at hc
      cases hfirst : (spaced (cppType component)).head? with
      | none =>
        rw [hfirst] at hc
        cases hc
      | some first =>
        rw [hfirst] at hc
        cases hc
        exact hhead _ hfirst rfl

theorem not_infix_of_isChain {s : Bytes} (h : s.IsChain Apart) : ¬ text "<:" <:+: s := by
  rintro ⟨front, back, rfl⟩
  rw [show text "<:" = [60, Ascii.colon] by decide, List.append_assoc] at h
  exact List.isChain_iff_forall_rel_of_append_cons_cons.mp h rfl ⟨rfl, rfl⟩

-- ---------------------------------------------------------------------------
-- Descriptors and texts
-- ---------------------------------------------------------------------------

/-- Types have texts, and those of two descriptors are equal only if the descriptors are, as far as
their class names are well-formed text without a slash in front. In the text of any type brackets
match, and none of them is one token with a colon. -/
theorem ofField_written_injective_and_bracketed :
    (∀ {s s' : Bytes} {type type' : FieldType}, FieldType.parse s = .ok type →
      FieldType.parse s' = .ok type' →
      (∀ name ∈ type.className?, Utf8.isValid name = true ∧ name.head? ≠ some Ascii.slash) →
      (∀ name ∈ type'.className?, Utf8.isValid name = true ∧ name.head? ≠ some Ascii.slash) →
      ∃ t t', ofField type = .ok t ∧ ofField type' = .ok t' ∧
        (t.written = t'.written → s = s')) ∧
    ∀ type : FieldType, ∃ t, ofField type = .ok t ∧ openBehind? 0 t.written = some 0 ∧
      ¬ text "<:" <:+: t.written := by
  constructor
  · intro s s' type type' hs hs' hclass hclass'
    obtain ⟨t, ht, -⟩ := exists_ofField type
    obtain ⟨t', ht', -⟩ := exists_ofField type'
    refine ⟨t, t', ht, ht', fun heq => ?_⟩
    rw [written_ofField_eq ht, written_ofField_eq ht'] at heq
    rw [← (FieldType.parse_ok_iff.mp hs).2, ← (FieldType.parse_ok_iff.mp hs').2,
      cppType_inj hclass hclass' heq]
  · intro type
    obtain ⟨t, ht, -⟩ := exists_ofField type
    refine ⟨t, ht, ?_⟩
    rw [written_ofField_eq ht]
    exact ⟨openBehind?_cppType type 0, not_infix_of_isChain (isChain_apart_cppType type)⟩

theorem ofField_written_injective_and_bracketed_matrices :
    FieldType.parse (text "[[Lp/Q$R;") = .ok (.array (.array (.object (text "p/Q$R")))) ∧
      FieldType.parse (text "[[Lp/Q_R;") = .ok (.array (.array (.object (text "p/Q_R")))) ∧
      ((ofField (.array (.array (.object (text "p/Q$R"))))).map written =
        .ok (text "::jaot::JArray< ::jaot::JArray< ::p::Q_SR*>*>*")) ∧
      ∃ t t', ofField (.array (.array (.object (text "p/Q$R")))) = .ok t ∧
        ofField (.array (.array (.object (text "p/Q_R")))) = .ok t' ∧
        (t.written = t'.written → text "[[Lp/Q$R;" = text "[[Lp/Q_R;") := by
  have hfirst : FieldType.parse (text "[[Lp/Q$R;") =
      .ok (.array (.array (.object (text "p/Q$R")))) := by decide +kernel
  have hsecond : FieldType.parse (text "[[Lp/Q_R;") =
      .ok (.array (.array (.object (text "p/Q_R")))) := by decide +kernel
  exact ⟨hfirst, hsecond, by decide +kernel,
    ofField_written_injective_and_bracketed.1 hfirst hsecond (by decide +kernel)
      (by decide +kernel)⟩

end ClassHeader.Cpp.TypeRef
