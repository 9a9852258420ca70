import ClassHeader.Proofs.Descriptor.Field

/-!
# Descriptors with their text

A field descriptor can be read without recursion. The brackets are counted first, and
around the element one array is put after the other, each with the text from its own
bracket to the end. `descriptorAt_eq`: that gives the types that are read recursively,
and the texts that are written for them.
-/

namespace ClassHeader

open Ascii Descriptor

-- ---------------------------------------------------------------------------
-- Chains
-- ---------------------------------------------------------------------------

/-- A field type that keeps its text, as do the types below its array dimensions. -/
inductive FieldDescriptor where
  | primitive (raw : Bytes) (type : Primitive)
  | object (raw className : Bytes)
  | array (raw : Bytes) (component : FieldDescriptor)
  deriving DecidableEq, Repr

def FieldType.spelled : FieldType → FieldDescriptor
  | .primitive type => .primitive (primitive type).descriptor type
  | .object className => .object (object className).descriptor className
  | .array component => .array (array component).descriptor component.spelled

namespace FieldDescriptor

def raw : FieldDescriptor → Bytes
  | primitive raw _ | object raw _ | array raw _ => raw

def type : FieldDescriptor → FieldType
  | primitive _ type => .primitive type
  | object _ className => .object className
  | array _ component => .array component.type

/-- One array dimension less. -/
def underlying? : FieldDescriptor → Option FieldDescriptor
  | array _ component => some component
  | _ => none

def element : FieldDescriptor → FieldDescriptor
  | array _ component => component.element
  | d => d

def dimensions : FieldDescriptor → Nat
  | array _ component => component.dimensions + 1
  | _ => 0

def className? (d : FieldDescriptor) : Option Bytes :=
  match d.element with
  | object _ className => some className
  | _ => none

def below? (d : FieldDescriptor) : Nat → Option FieldDescriptor
  | 0 => some d
  | k + 1 => (d.below? k).bind underlying?

end FieldDescriptor

namespace FieldType

variable (t : FieldType)

@[simp] theorem raw_spelled : t.spelled.raw = t.descriptor := by
  cases t <;> rfl

@[simp] theorem type_spelled : t.spelled.type = t := by
  induction t with
  | primitive | object => rfl
  | array component ih => rw [spelled, FieldDescriptor.type, ih]

@[simp] theorem element_spelled : t.spelled.element = t.element.spelled := by
  induction t with
  | primitive | object => rfl
  | array component ih => exact ih

@[simp] theorem dimensions_spelled : t.spelled.dimensions = t.dimensions := by
  induction t with
  | primitive | object => rfl
  | array component ih => rw [spelled, FieldDescriptor.dimensions, ih, dimensions]

@[simp] theorem className?_spelled : t.spelled.className? = t.className? := by
  induction t with
  | primitive | object => rfl
  | array component ih => exact ih

theorem below?_spelled (k : Nat) : t.spelled.below? k = (t.below? k).map spelled := by
  induction k with
  | zero => rfl
  | succ k ih =>
    rw [FieldDescriptor.below?, below?, ih, Option.bind_map, Option.map_bind]
    congr 1
    funext t
    cases t <;> rfl

end FieldType

-- ---------------------------------------------------------------------------
-- The loop
-- ---------------------------------------------------------------------------

namespace Descriptor

def slice (whole : Bytes) (start stop : Nat) : Bytes := (whole.take stop).drop start

def elementAt (whole : Bytes) (i : Nat) : Result (FieldDescriptor × Nat) :=
  match whole[i]? with
  | none => throw (malformed whole (text "missing array element type"))
  | some c =>
    if c = classMark then
      match (whole.drop i).idxOf? semicolon with
      | none => throw (malformed whole (text "unterminated class name"))
      | some length =>
        let className := slice whole (i + 1) (i + length)
        if className = [] then throw (malformed whole (text "empty class name"))
        else return (.object (slice whole i (i + length + 1)) className, i + length + 1)
    else
      match Primitive.ofLetter? c with
      | some type => return (.primitive (slice whole i (i + 1)) type, i + 1)
      | none =>
        throw (malformed whole (text "unknown type character " ++ Text.quotedByte c ++
          text " at offset " ++ Text.ofNat i))

def enclose (whole : Bytes) (start stop : Nat) : Nat → FieldDescriptor → FieldDescriptor
  | 0, d => d
  | k + 1, d => enclose whole start stop k (.array (slice whole (start + k) stop) d)

/-- The descriptor at `start`, and the offset behind it. -/
def descriptorAt (whole : Bytes) (start : Nat) : Result (FieldDescriptor × Nat) := do
  let dimensions := ((whole.drop start).takeWhile (· = openBracket)).length
  let (element, stop) ← elementAt whole (start + dimensions)
  return (enclose whole start stop dimensions element, stop)

end Descriptor

namespace FieldDescriptor

def parse (s : Bytes) : Result FieldDescriptor :=
  if s = [] then throw (malformed s (text "empty descriptor"))
  else do
    let (d, stop) ← descriptorAt s 0
    if stop = s.length then return d
    else throw (malformed s (text "trailing data at offset " ++ Text.ofNat stop))

def ofClassName (name : Bytes) : Result FieldDescriptor :=
  match name with
  | [] => throw (malformed name (text "empty class name"))
  | c :: _ =>
    if c = openBracket then parse name
    else if name.any fun b => b = semicolon || b = openBracket then
      throw (malformed name (text "invalid character in class name"))
    else return .object (text "L" ++ name ++ text ";") name

end FieldDescriptor

-- ---------------------------------------------------------------------------
-- The loop and the recursion
-- ---------------------------------------------------------------------------

namespace Descriptor

variable {whole front mid s rest : Bytes}

theorem slice_of_append (h : whole = front ++ (mid ++ rest)) :
    slice whole front.length (front.length + mid.length) = mid := by
  simp [h, slice, List.take_append]

theorem reaches_end_iff (h : whole = front ++ rest) :
    whole.length - rest.length = whole.length ↔ rest = [] := by
  rw [h, List.length_append, ← List.length_eq_zero_iff]
  omega

/-- What is read recursively, with its text and its end as an offset. -/
def located (whole : Bytes) (found : FieldType × Bytes) : FieldDescriptor × Nat :=
  (found.1.spelled, whole.length - found.2.length)

theorem enclose_succ (whole : Bytes) (start stop k : Nat) (d : FieldDescriptor) :
    enclose whole start stop (k + 1) d =
      .array (slice whole start stop) (enclose whole (start + 1) stop k d) := by
  induction k generalizing d with
  | zero => rfl
  | succ k ih =>
    rw [enclose, ih, enclose]
    simp only [Nat.add_assoc, Nat.add_comm 1 k]

/-- The bracket in front belongs to the array that is put on last. -/
theorem descriptorAt_bracket {start : Nat} (h : whole.drop start = openBracket :: s) :
    descriptorAt whole start = do
      let (component, stop) ← descriptorAt whole (start + 1)
      return (.array (slice whole start stop) component, stop) := by
  have hnext : whole.drop (start + 1) = s := by
    rw [← List.drop_drop, h, List.drop_one, List.tail_cons]
  simp only [descriptorAt, h, hnext, List.takeWhile_cons, decide_true, if_true, List.length_cons,
    Nat.add_assoc, Nat.add_comm 1]
  cases elementAt whole (start + ((s.takeWhile (· = openBracket)).length + 1)) with
  | error e => rfl
  | ok found => exact congrArg (fun d => Except.ok (d, found.2)) (enclose_succ ..)

theorem idxOf?_append_cons {mark : UInt8} (h : mark ∉ s) :
    (s ++ mark :: rest).idxOf? mark = some s.length := by
  induction s with
  | nil => simp [List.idxOf?_cons]
  | cons b s ih =>
    simp only [List.mem_cons, not_or] at h
    obtain ⟨hb, hs⟩ := h
    simp [List.idxOf?_cons, Ne.symm hb, ih hs]

theorem located_eq {t : FieldType} (h : whole = front ++ (t.descriptor ++ rest)) :
    slice whole front.length (whole.length - rest.length) = t.descriptor ∧
      whole.length - rest.length = front.length + t.descriptor.length := by
  have hlen : whole.length - rest.length = front.length + t.descriptor.length := by
    simp [h, ← Nat.add_assoc]
  exact ⟨by rw [hlen, slice_of_append h], hlen⟩

theorem elementAt_classMark (h : whole = front ++ classMark :: s) :
    elementAt whole front.length = (fieldAt whole (classMark :: s)).map (located whole) := by
  have hfirst : whole[front.length]? = some classMark := by simp [h]
  have hdrop : whole.drop front.length = classMark :: s := by rw [h, List.drop_left]
  have hbracket : ¬classMark = openBracket := by decide
  simp only [elementAt, hfirst, hdrop, fieldAt, if_pos, if_neg hbracket]
  cases hbehind : s.dropWhile (· ≠ semicolon) with
  | nil =>
    have hnone : (classMark :: s).idxOf? semicolon = none := by
      rw [List.idxOf?_eq_none_iff, List.mem_cons, not_or]
      refine ⟨by decide, fun hmem => ?_⟩
      simpa using List.dropWhile_eq_nil_iff.mp hbehind _ hmem
    rw [hnone]
    rfl
  | cons b rest =>
    have hs := eq_append_of_dropWhile hbehind
    have hname : semicolon ∉ s.takeWhile (· ≠ semicolon) := notMem_takeWhile
    generalize s.takeWhile (· ≠ semicolon) = name at hs hname
    -- The mark is found behind the letter and the name, and both slices end there.
    have hlength : (classMark :: s).idxOf? semicolon = some (name.length + 1) := by
      have hfront : semicolon ∉ classMark :: name := by simpa using ⟨by decide, hname⟩
      rw [hs]
      exact idxOf?_append_cons hfront
    have hinner : slice whole (front.length + 1) (front.length + (name.length + 1)) = name := by
      have hsplit : whole = (front ++ [classMark]) ++ (name ++ semicolon :: rest) := by
        simp [h, hs]
      simpa [Nat.add_assoc, Nat.add_comm 1] using slice_of_append hsplit
    have hobject : whole = front ++ ((FieldType.object name).descriptor ++ rest) := by
      rw [h, hs, descriptor_object_append]
    obtain ⟨hraw, hstop⟩ := located_eq hobject
    have hwidth : (FieldType.object name).descriptor.length = name.length + 1 + 1 := by
      simp [FieldType.descriptor]
    rw [hstop, hwidth, ← Nat.add_assoc] at hraw
    rw [hwidth, ← Nat.add_assoc] at hstop
    simp only [hlength, hinner, hraw]
    split_ifs
    · rfl
    · simp only [Except.map, pure, Except.pure, located, FieldType.spelled, hstop]

theorem elementAt_eq {c : UInt8} (h : whole = front ++ c :: s) (hc : c ≠ openBracket) :
    elementAt whole front.length = (fieldAt whole (c :: s)).map (located whole) := by
  by_cases hmark : c = classMark
  · subst hmark
    exact elementAt_classMark h
  · have hfirst : whole[front.length]? = some c := by simp [h]
    have hoffset : whole.length - (s.length + 1) = front.length := by simp [h]
    simp only [elementAt, hfirst, fieldAt, if_neg hc, if_neg hmark, hoffset]
    cases htype : Primitive.ofLetter? c with
    | none => rfl
    | some type =>
      have hletter : whole = front ++ ((FieldType.primitive type).descriptor ++ s) := by
        rw [h, Primitive.ofLetter?_eq_some_iff.mp htype]
        rfl
      obtain ⟨hraw, hstop⟩ := located_eq hletter
      rw [hstop] at hraw
      exact congrArg₂ (fun raw stop => Except.ok (FieldDescriptor.primitive raw type, stop)) hraw
        hstop.symm

theorem descriptorAt_eq (h : whole = front ++ s) :
    descriptorAt whole front.length = (fieldAt whole s).map (located whole) := by
  induction s generalizing front with
  | nil =>
    have hdrop : whole.drop front.length = [] := by rw [h, List.drop_left]
    have hend : whole[front.length]? = none := by simp [h]
    simp only [descriptorAt, elementAt, hdrop, List.takeWhile_nil, List.length_nil, Nat.add_zero,
      hend, fieldAt]
    rfl
  | cons c s ih =>
    have hdrop : whole.drop front.length = c :: s := by rw [h, List.drop_left]
    by_cases hc : c = openBracket
    · subst hc
      have hnext :
          descriptorAt whole (front.length + 1) = (fieldAt whole s).map (located whole) := by
        simpa using ih (show whole = (front ++ [openBracket]) ++ s by simp [h])
      rw [descriptorAt_bracket hdrop, hnext, fieldAt, if_pos rfl]
      cases hfound : fieldAt whole s with
      | error e => rfl
      | ok found =>
        obtain ⟨t, rest⟩ := found
        obtain ⟨-, rfl⟩ := fieldAt_ok hfound
        have harray : whole = front ++ ((FieldType.array t).descriptor ++ rest) := h
        obtain ⟨hraw, -⟩ := located_eq harray
        exact congrArg (fun raw => Except.ok (FieldDescriptor.array raw t.spelled, _)) hraw
    · have helement := elementAt_eq h hc
      have hnone : (c :: s).takeWhile (· = openBracket) = [] := by simp [hc]
      rw [descriptorAt, hdrop, hnone, List.length_nil, Nat.add_zero, helement]
      cases fieldAt whole (c :: s) with
      | error e => rfl
      | ok found => rfl

end Descriptor

-- ---------------------------------------------------------------------------
-- Whole texts
-- ---------------------------------------------------------------------------

namespace FieldDescriptor

variable {s : Bytes} {d : FieldDescriptor}

/-- Both readers accept and refuse the same texts, with the same errors. -/
theorem parse_eq (s : Bytes) : parse s = (FieldType.parse s).map FieldType.spelled := by
  have hread : descriptorAt s 0 = (fieldAt s s).map (located s) :=
    descriptorAt_eq (List.nil_append s).symm
  unfold parse FieldType.parse
  rw [hread]
  split_ifs
  · rfl
  · cases hfound : fieldAt s s with
    | error e => rfl
    | ok found =>
      obtain ⟨t, rest⟩ := found
      obtain ⟨-, htext⟩ := fieldAt_ok hfound
      simp only [Except.map, Result.ok_bind, located, reaches_end_iff htext]
      split_ifs <;> rfl

theorem ofClassName_eq (s : Bytes) :
    ofClassName s = (FieldType.ofClassName s).map FieldType.spelled := by
  cases s with
  | nil => rfl
  | cons c rest =>
    simp only [ofClassName, FieldType.ofClassName, parse_eq]
    split_ifs <;> rfl

theorem map_spelled_ok_iff {result : Result FieldType} :
    result.map FieldType.spelled = .ok d ↔ ∃ t, result = .ok t ∧ t.spelled = d := by
  cases result <;> simp [Except.map]

theorem parse_ok_iff : parse s = .ok d ↔ ∃ t, FieldType.parse s = .ok t ∧ t.spelled = d := by
  rw [parse_eq, map_spelled_ok_iff]

theorem ofClassName_ok_iff :
    ofClassName s = .ok d ↔ ∃ t, FieldType.ofClassName s = .ok t ∧ t.spelled = d := by
  rw [ofClassName_eq, map_spelled_ok_iff]

/-- What the chain of a text that is read consists of. -/
theorem chain_of_parse (h : parse s = .ok d) :
    d.raw = s ∧ d.dimensions = (s.takeWhile (· = openBracket)).length ∧
      (∀ k, (d.below? k).map raw = if k ≤ d.dimensions then some (s.drop k) else none) ∧
      d.element.raw = s.dropWhile (· = openBracket) ∧ Base d.element.raw d.element.type ∧
      ∀ name, d.className? = some name ↔ d.element.type = .object name := by
  obtain ⟨t, ht, rfl⟩ := parse_ok_iff.mp h
  obtain ⟨hwell, rfl⟩ := FieldType.parse_ok_iff.mp ht
  obtain ⟨hfront, hbehind⟩ := t.brackets_descriptor
  have hraw : raw ∘ FieldType.spelled = FieldType.descriptor := funext FieldType.raw_spelled
  simp only [FieldType.raw_spelled, FieldType.dimensions_spelled, FieldType.element_spelled,
    FieldType.type_spelled, FieldType.className?_spelled, FieldType.below?_spelled, Option.map_map,
    hraw, hfront, hbehind, List.length_replicate, true_and]
  exact ⟨t.map_descriptor_below?, FieldType.base_element hwell,
    fun name => FieldType.className?_eq_some_iff⟩

theorem parse_accepts_iff_and_chain (s : Bytes) :
    ((∃ d, parse s = .ok d) ↔
      ∃ n base type, Base base type ∧ s = List.replicate n openBracket ++ base) ∧
    (∀ d, parse s = .ok d →
      d.raw = s ∧ d.dimensions = (s.takeWhile (· = openBracket)).length ∧
      (∀ k, (d.below? k).map raw = if k ≤ d.dimensions then some (s.drop k) else none) ∧
      d.element.raw = s.dropWhile (· = openBracket) ∧ Base d.element.raw d.element.type ∧
      ∀ name, d.className? = some name ↔ d.element.type = .object name) ∧
    ((∃ d, ofClassName s = .ok d) ↔
      (s.head? = some openBracket ∧ ∃ d, parse s = .ok d) ∨
        (s ≠ [] ∧ semicolon ∉ s ∧ openBracket ∉ s)) ∧
    (∀ d, ofClassName s = .ok d → parse d.raw = .ok d) ∧
    parse s = (FieldType.parse s).map FieldType.spelled ∧
    ofClassName s = (FieldType.ofClassName s).map FieldType.spelled := by
  have hparses : (∃ d, parse s = .ok d) ↔ ∃ t, FieldType.parse s = .ok t := by
    simp only [parse_ok_iff]
    rw [exists_comm]
    simp
  refine ⟨?_, fun d h => chain_of_parse h, ?_, ?_, parse_eq s, ofClassName_eq s⟩
  · rw [hparses, FieldType.exists_parse_iff]
  · rw [hparses]
    simp only [ofClassName_ok_iff, FieldType.ofClassName_ok_iff]
    rw [exists_comm]
    simp [exists_or]
  · intro d h
    obtain ⟨t, ht, rfl⟩ := ofClassName_ok_iff.mp h
    rw [FieldType.raw_spelled]
    refine parse_ok_iff.mpr ⟨t, ?_, rfl⟩
    rcases FieldType.ofClassName_ok_iff.mp ht with ⟨-, hparse⟩ | ⟨hne, hmark, -, rfl⟩
    · rwa [(FieldType.parse_ok_iff.mp hparse).2]
    · exact FieldType.parse_ok_iff.mpr ⟨⟨hne, hmark⟩, rfl⟩

def bracketed : FieldDescriptor :=
  array (text "[[L(a[V;") (array (text "[L(a[V;") (object (text "L(a[V;") (text "(a[V")))

theorem parse_accepts_iff_and_chain_bracketed :
    parse (text "[[L(a[V;") = .ok bracketed ∧ ofClassName (text "[[L(a[V;") = .ok bracketed ∧
      bracketed.raw = text "[[L(a[V;" ∧ bracketed.dimensions = 2 ∧
      (bracketed.below? 1).map raw = some (text "[L(a[V;") ∧
      Base (text "L(a[V;") bracketed.element.type ∧ parse bracketed.raw = .ok bracketed := by
  have h : parse (text "[[L(a[V;") = .ok bracketed := rfl
  have hname : ofClassName (text "[[L(a[V;") = .ok bracketed := rfl
  obtain ⟨-, hchain, -, hback, -⟩ := parse_accepts_iff_and_chain (text "[[L(a[V;")
  obtain ⟨htext, hdims, hbelow, -, hbase, -⟩ := hchain _ h
  exact ⟨h, hname, htext, hdims, hbelow 1, hbase, hback _ hname⟩

end FieldDescriptor

end ClassHeader
