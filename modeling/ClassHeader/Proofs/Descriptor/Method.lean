import ClassHeader.Proofs.Descriptor.Chain

/-!
# Method descriptors

The arguments stand side by side without anything between them, and their class names
may hold parentheses, brackets and letters of types. `argsAt_ok_iff`: they are taken
apart again because each argument says by itself where it ends. Reading by offsets, with
all texts kept, accepts what is put together from accepted parts and comes to the same
types (`parse_iff_composed`).
-/

namespace ClassHeader

open Ascii

theorem FieldType.exists_descriptor_eq_cons (t : FieldType) :
    ∃ c s, t.descriptor = c :: s ∧ c ≠ closeParen ∧ c ≠ voidMark := by
  cases t with
  | primitive type => cases type <;> exact ⟨_, _, rfl, by decide, by decide⟩
  | object | array => exact ⟨_, _, rfl, by decide, by decide⟩

namespace Descriptor

variable {whole s behind : Bytes} {args : List FieldType}

theorem argsAt_ok (h : argsAt whole s = .ok (args, behind)) :
    (∀ t ∈ args, t.WellFormed) ∧ s = args.flatMap FieldType.descriptor ++ closeParen :: behind := by
  fun_induction argsAt whole s generalizing args with
  | case1 => cases h
  | case2 rest =>
    cases h
    simp
  | case3 => cases h
  | case4 => cases h
  | case5 c rest _ _ arg after hfound ih =>
    simp only [Result.bind_ok_iff, Result.pure_ok_iff] at h
    obtain ⟨⟨others, last⟩, hothers, h⟩ := h
    cases h
    obtain ⟨hwell, htext⟩ := fieldAt_ok hfound
    obtain ⟨hall, rfl⟩ := ih hothers
    exact ⟨by simpa using ⟨hwell, hall⟩, by simpa using htext⟩

theorem argsAt_cons {t : FieldType} (h : t.WellFormed) :
    argsAt whole (t.descriptor ++ s) = do
      let (args, after) ← argsAt whole s
      return (t :: args, after) := by
  obtain ⟨c, rest, htext, hclose, hvoid⟩ := t.exists_descriptor_eq_cons
  have hfound : fieldAt whole (c :: (rest ++ s)) = .ok (t, s) := by
    rw [← List.cons_append, ← htext]
    exact fieldAt_descriptor h
  rw [htext, List.cons_append, argsAt, if_neg hclose, if_neg hvoid]
  split
  · rename_i hfails
    cases hfound.symm.trans hfails
  · rename_i hsame
    cases hfound.symm.trans hsame
    rfl

theorem argsAt_descriptors (h : ∀ t ∈ args, t.WellFormed) :
    argsAt whole (args.flatMap FieldType.descriptor ++ closeParen :: behind) =
      .ok (args, behind) := by
  induction args with
  | nil => rw [List.flatMap_nil, List.nil_append, argsAt, if_pos rfl]; rfl
  | cons t args ih =>
    obtain ⟨ht, hargs⟩ := List.forall_mem_cons.mp h
    rw [List.flatMap_cons, List.append_assoc, argsAt_cons ht, ih hargs]
    rfl

theorem argsAt_ok_iff : argsAt whole s = .ok (args, behind) ↔
    (∀ t ∈ args, t.WellFormed) ∧ s = args.flatMap FieldType.descriptor ++ closeParen :: behind := by
  constructor
  · exact argsAt_ok
  · rintro ⟨h, rfl⟩
    exact argsAt_descriptors h

end Descriptor

namespace MethodType

open Descriptor

structure WellFormed (m : MethodType) : Prop where
  args : ∀ t ∈ m.args, t.WellFormed
  result : ∀ t ∈ m.result, t.WellFormed

variable {s : Bytes} {m : MethodType}

theorem parse_ok (h : parse s = .ok m) : m.WellFormed ∧ m.descriptor = s := by
  cases s with
  | nil => cases h
  | cons c rest =>
    unfold parse at h
    dsimp only at h
    split at h
    · cases h
    · rename_i hopen
      simp only [Result.bind_ok_iff] at h
      obtain ⟨⟨args, behind⟩, hargs, h⟩ := h
      obtain ⟨hall, rfl⟩ := argsAt_ok hargs
      rw [not_not.mp hopen]
      cases behind with
      | nil => cases h
      | cons r after =>
        dsimp only at h
        split at h
        · rename_i hvoid
          split at h
          · rename_i hafter
            cases h
            exact ⟨⟨hall, by simp⟩, by simp [descriptor, hvoid, hafter]⟩
          · cases h
        · simp only [Result.bind_ok_iff] at h
          obtain ⟨⟨result, last⟩, hresult, h⟩ := h
          dsimp only at h
          split at h
          · rename_i hlast
            cases h
            obtain ⟨hwell, htext⟩ := fieldAt_ok hresult
            refine ⟨⟨hall, ?_⟩, ?_⟩
            · rintro _ ⟨⟩
              exact hwell
            · simp [descriptor, htext, hlast]
          · cases h

theorem parse_descriptor (h : m.WellFormed) : parse m.descriptor = .ok m := by
  obtain ⟨args, result⟩ := m
  have hargs (whole behind : Bytes) :
      argsAt whole (args.flatMap FieldType.descriptor ++ closeParen :: behind) =
        .ok (args, behind) :=
    argsAt_descriptors h.args
  cases result with
  | none =>
    rw [descriptor, List.cons_append, parse, if_neg (by simp), hargs]
    rfl
  | some t =>
    obtain ⟨c, rest, htext, -, hvoid⟩ := t.exists_descriptor_eq_cons
    have hresult (whole : Bytes) : fieldAt whole (t.descriptor ++ []) = .ok (t, []) :=
      fieldAt_descriptor (h.result t rfl)
    rw [descriptor, List.cons_append, parse, if_neg (by simp), hargs, Result.ok_bind]
    simp only [List.append_nil, htext] at hresult
    simp [htext, hvoid, hresult, Result.ok_bind, pure, Except.pure]

/-- Reading a whole descriptor undoes writing the type. -/
theorem parse_ok_iff : parse s = .ok m ↔ m.WellFormed ∧ m.descriptor = s := by
  constructor
  · exact parse_ok
  · rintro ⟨h, rfl⟩
    exact parse_descriptor h

end MethodType

-- ---------------------------------------------------------------------------
-- The loop
-- ---------------------------------------------------------------------------

/-- A method type that keeps its text, as do its arguments and its result. -/
@[ext] structure MethodDescriptor where
  raw : Bytes
  args : List FieldDescriptor
  /-- Absent for methods that return nothing. -/
  result : Option FieldDescriptor
  deriving DecidableEq, Repr

def MethodType.spelled (m : MethodType) : MethodDescriptor where
  raw := m.descriptor
  args := m.args.map FieldType.spelled
  result := m.result.map FieldType.spelled

namespace Descriptor

theorem lt_of_descriptorAt {whole : Bytes} {start stop : Nat} {d : FieldDescriptor}
    (hstart : start < whole.length) (h : descriptorAt whole start = .ok (d, stop)) :
    start < stop := by
  have hsplit := (List.take_append_drop start whole).symm
  have hlen : (whole.take start).length = start := List.length_take_of_le hstart.le
  have hread := descriptorAt_eq hsplit
  rw [hlen, h] at hread
  cases hfound : fieldAt whole (whole.drop start) with
  | error e =>
    rw [hfound] at hread
    cases hread
  | ok found =>
    rw [hfound] at hread
    cases hread
    have hlt := fieldAt_length hfound
    rw [List.length_drop] at hlt
    omega

/-- The arguments from `i` up to the closing parenthesis, and the offset behind it. -/
def argumentsAt (whole : Bytes) (i : Nat) : Result (List FieldDescriptor × Nat) :=
  match _hfirst : whole[i]? with
  | none => throw (malformed whole (text "unterminated argument list"))
  | some c =>
    if c = closeParen then return ([], i + 1)
    else if c = voidMark then throw (malformed whole (text "void argument"))
    else
      match _hfound : descriptorAt whole i with
      | .error e => throw e
      | .ok (arg, next) => do
        let (args, stop) ← argumentsAt whole next
        return (arg :: args, stop)
termination_by whole.length - i
decreasing_by
  obtain ⟨hlt, -⟩ := List.getElem?_eq_some_iff.mp _hfirst
  have hnext := lt_of_descriptorAt hlt _hfound
  omega

end Descriptor

namespace MethodDescriptor

open Descriptor

def parse (s : Bytes) : Result MethodDescriptor :=
  match s with
  | [] => throw (malformed s (text "empty descriptor"))
  | c :: _ =>
    if c ≠ openParen then throw (malformed s (text "method descriptor must start with '('"))
    else do
      let (args, i) ← argumentsAt s 1
      match s[i]? with
      | none => throw (malformed s (text "missing return type"))
      | some r =>
        if r = voidMark then
          if i + 1 = s.length then return { raw := s, args, result := none }
          else throw (malformed s (text "trailing data at offset " ++ Text.ofNat (i + 1)))
        else
          let (result, stop) ← descriptorAt s i
          if stop = s.length then return { raw := s, args, result := some result }
          else throw (malformed s (text "trailing data at offset " ++ Text.ofNat stop))

def argSlots (m : MethodDescriptor) : Nat :=
  m.args.foldl (fun n arg => if arg.type.isWide then n + 2 else n + 1) 0

end MethodDescriptor

-- ---------------------------------------------------------------------------
-- The loop and the recursion
-- ---------------------------------------------------------------------------

namespace Descriptor

variable {whole front s : Bytes}

def locatedAll (whole : Bytes) (found : List FieldType × Bytes) : List FieldDescriptor × Nat :=
  (found.1.map FieldType.spelled, whole.length - found.2.length)

theorem argumentsAt_step (whole : Bytes) (i : Nat) :
    argumentsAt whole i = match whole[i]? with
      | none => throw (malformed whole (text "unterminated argument list"))
      | some c =>
        if c = closeParen then return ([], i + 1)
        else if c = voidMark then throw (malformed whole (text "void argument"))
        else do
          let (arg, next) ← descriptorAt whole i
          let (args, stop) ← argumentsAt whole next
          return (arg :: args, stop) := by
  rw [argumentsAt]
  split
  · rename_i hend
    rw [hend]
  · rename_i c hfirst
    simp only [hfirst]
    split_ifs
    · rfl
    · rfl
    · split
      · rename_i hfails
        rw [hfails]
        rfl
      · rename_i hfound
        rw [hfound]
        rfl

theorem argumentsAt_eq (h : whole = front ++ s) :
    argumentsAt whole front.length = (argsAt whole s).map (locatedAll whole) := by
  fun_induction argsAt whole s generalizing front with
  | case1 =>
    have hend : whole[front.length]? = none := by simp [h]
    rw [argumentsAt_step, hend]
    rfl
  | case2 rest =>
    have hfirst : whole[front.length]? = some closeParen := by simp [h]
    have hstop : whole.length - rest.length = front.length + 1 := by
      rw [h, List.length_append, List.length_cons]
      omega
    rw [argumentsAt_step, hfirst]
    exact congrArg (fun stop => Except.ok ([], stop)) hstop.symm
  | case3 rest hclose =>
    have hfirst : whole[front.length]? = some voidMark := by simp [h]
    rw [argumentsAt_step, hfirst]
    rfl
  | case4 c rest hclose hvoid e hfails =>
    have hfirst : whole[front.length]? = some c := by simp [h]
    rw [argumentsAt_step, hfirst, descriptorAt_eq h, hfails]
    simp only [if_neg hclose, if_neg hvoid]
    rfl
  | case5 c rest hclose hvoid arg after hfound ih =>
    have hfirst : whole[front.length]? = some c := by simp [h]
    obtain ⟨-, htext⟩ := fieldAt_ok hfound
    have hnext : whole = (front ++ arg.descriptor) ++ after := by
      rw [h, htext, List.append_assoc]
    have hplace : whole.length - after.length = (front ++ arg.descriptor).length := by
      rw [hnext, List.length_append, Nat.add_sub_cancel]
    rw [argumentsAt_step, hfirst, descriptorAt_eq h, hfound]
    simp only [if_neg hclose, if_neg hvoid, Except.map, Result.ok_bind, located, hplace, ih hnext]
    cases argsAt whole after with
    | error e => rfl
    | ok others => rfl

end Descriptor

namespace MethodDescriptor

open Descriptor

variable {s : Bytes} {m : MethodDescriptor}

/-- Both readers accept and refuse the same texts, with the same errors. -/
theorem parse_eq (s : Bytes) :
    parse s = (MethodType.parse s).map fun m => { m.spelled with raw := s } := by
  cases s with
  | nil => rfl
  | cons c rest =>
    have hargs :
        argumentsAt (c :: rest) 1 = (argsAt (c :: rest) rest).map (locatedAll (c :: rest)) :=
      argumentsAt_eq (List.singleton_append).symm
    simp only [parse, MethodType.parse, hargs]
    split_ifs
    · rfl
    · cases hfound : argsAt (c :: rest) rest with
      | error e => rfl
      | ok found =>
        obtain ⟨args, behind⟩ := found
        obtain ⟨-, htext⟩ := argsAt_ok hfound
        -- All up to the closing parenthesis.
        obtain ⟨front, hfront⟩ : ∃ front, c :: rest = front ++ behind :=
          ⟨c :: args.flatMap FieldType.descriptor ++ [closeParen], by simp [htext]⟩
        have hplace : (c :: rest).length - behind.length = front.length := by
          rw [hfront, List.length_append, Nat.add_sub_cancel]
        simp only [Except.map, Result.ok_bind, locatedAll, hplace]
        generalize c :: rest = whole at *
        cases behind with
        | nil =>
          have hend : whole[front.length]? = none := by simp [hfront]
          rw [hend]
          rfl
        | cons r after =>
          have hfirst : whole[front.length]? = some r := by simp [hfront]
          have hafter : whole = (front ++ [r]) ++ after := by simp [hfront]
          have hnext : front.length + 1 = whole.length - after.length := by
            rw [hafter, List.length_append, Nat.add_sub_cancel, List.length_append]
            rfl
          simp only [hfirst, hnext, reaches_end_iff hafter, descriptorAt_eq hfront]
          by_cases hvoid : r = voidMark
          · simp only [if_pos hvoid]
            split_ifs <;> rfl
          · simp only [if_neg hvoid]
            cases hresult : fieldAt whole (r :: after) with
            | error e => rfl
            | ok found =>
              obtain ⟨t, last⟩ := found
              obtain ⟨-, hlast⟩ := fieldAt_ok hresult
              have hsplit : whole = (front ++ t.descriptor) ++ last := by
                rw [hfront, hlast, List.append_assoc]
              simp only [Except.map, Result.ok_bind, located, reaches_end_iff hsplit]
              split_ifs <;> rfl

theorem parse_spelled (s : Bytes) : parse s = (MethodType.parse s).map MethodType.spelled := by
  rw [parse_eq]
  cases h : MethodType.parse s with
  | error e => rfl
  | ok t =>
    obtain ⟨-, rfl⟩ := MethodType.parse_ok_iff.mp h
    rfl

end MethodDescriptor

-- ---------------------------------------------------------------------------
-- The parts of a method descriptor
-- ---------------------------------------------------------------------------

/-- The descriptor is what its own text is read as. -/
def FieldDescriptor.Accepted (d : FieldDescriptor) : Prop := FieldDescriptor.parse d.raw = .ok d

theorem FieldDescriptor.accepted_iff {d : FieldDescriptor} :
    d.Accepted ↔ d.type.WellFormed ∧ d.type.spelled = d := by
  simp only [Accepted, parse_ok_iff, FieldType.parse_ok_iff]
  constructor
  · rintro ⟨t, ⟨hwell, -⟩, rfl⟩
    rw [FieldType.type_spelled]
    exact ⟨hwell, rfl⟩
  · rintro ⟨hwell, hspelled⟩
    refine ⟨d.type, ⟨hwell, ?_⟩, hspelled⟩
    rw [← FieldType.raw_spelled, hspelled]

theorem FieldDescriptor.Accepted.raw_eq {d : FieldDescriptor} (h : d.Accepted) :
    d.raw = d.type.descriptor := by
  rw [← FieldType.raw_spelled, (accepted_iff.mp h).2]

namespace FieldType

theorem isWide_iff (t : FieldType) :
    t.isWide = true ↔ t.descriptor = text "J" ∨ t.descriptor = text "D" := by
  have hlong : text "J" = [Primitive.long.letter] := rfl
  have hdouble : text "D" = [Primitive.double.letter] := rfl
  cases t with
  | primitive type => cases type <;> decide
  | object name => simp [isWide, descriptor, hlong, hdouble, Primitive.letter]
  | array component => simp [isWide, descriptor, hlong, hdouble, component.descriptor_ne_nil]

theorem slots_eq (t : FieldType) :
    t.slots = if t.descriptor = text "J" ∨ t.descriptor = text "D" then 2 else 1 := by
  simp [slots, isWide_iff]

end FieldType

namespace MethodType

theorem raw_spelled (m : MethodType) :
    m.spelled.raw = text "(" ++ (m.spelled.args.map FieldDescriptor.raw).flatten ++ text ")" ++
      m.spelled.result.elim (text "V") FieldDescriptor.raw := by
  have hopen : text "(" = [openParen] := rfl
  have hclose : text ")" = [closeParen] := rfl
  have hvoid : text "V" = [voidMark] := rfl
  have hraw : FieldDescriptor.raw ∘ FieldType.spelled = FieldType.descriptor :=
    funext FieldType.raw_spelled
  obtain ⟨args, _ | t⟩ := m <;>
    simp [spelled, descriptor, List.flatMap_def, hopen, hclose, hvoid, hraw]

theorem argSlots_eq (m : MethodType) : m.argSlots = (m.args.map FieldType.slots).sum := by
  rw [argSlots, List.sum_eq_foldr, List.foldr_map]

end MethodType

namespace MethodDescriptor

variable {s : Bytes} {m : MethodDescriptor}

/-- The text is put together from the texts of the arguments and of the result, each of which is
accepted by itself. -/
structure Composed (m : MethodDescriptor) : Prop where
  raw : m.raw = text "(" ++ (m.args.map FieldDescriptor.raw).flatten ++ text ")" ++
    m.result.elim (text "V") FieldDescriptor.raw
  args : ∀ a ∈ m.args, a.Accepted
  result : ∀ r ∈ m.result, r.Accepted

theorem composed_iff : m.Composed ↔ ∃ t : MethodType, t.WellFormed ∧ t.spelled = m := by
  constructor
  · rintro ⟨hraw, hargs, hresult⟩
    let t : MethodType := {
      args := m.args.map FieldDescriptor.type
      result := m.result.map FieldDescriptor.type }
    have hargsSame : t.spelled.args = m.args := by
      simp only [MethodType.spelled, t, List.map_map]
      conv_rhs => rw [← List.map_id m.args]
      exact List.map_congr_left fun a ha => (FieldDescriptor.accepted_iff.mp (hargs a ha)).2
    have hresultSame : t.spelled.result = m.result := by
      cases hr : m.result with
      | none => simp [MethodType.spelled, t, hr]
      | some r =>
        have hspelled := (FieldDescriptor.accepted_iff.mp (hresult r hr)).2
        simp [MethodType.spelled, t, hr, hspelled]
    have hrawSame : t.spelled.raw = m.raw := by
      rw [MethodType.raw_spelled, hargsSame, hresultSame, hraw]
    refine ⟨t, ⟨?_, ?_⟩, ?_⟩
    · simpa [t] using fun a ha => (FieldDescriptor.accepted_iff.mp (hargs a ha)).1
    · simpa [t] using fun r hr => (FieldDescriptor.accepted_iff.mp (hresult r hr)).1
    · exact MethodDescriptor.ext hrawSame hargsSame hresultSame
  · rintro ⟨t, hwell, rfl⟩
    have haccepted (type : FieldType) (h : type.WellFormed) : type.spelled.Accepted :=
      FieldDescriptor.accepted_iff.mpr (by simpa using h)
    refine ⟨t.raw_spelled, ?_, ?_⟩
    · simpa [MethodType.spelled] using fun type htype => haccepted type (hwell.args type htype)
    · simpa [MethodType.spelled] using fun type htype => haccepted type (hwell.result type htype)

theorem parse_ok_iff : parse s = .ok m ↔ m.Composed ∧ m.raw = s := by
  rw [parse_spelled, composed_iff]
  constructor
  · intro h
    cases ht : MethodType.parse s with
    | error e =>
      rw [ht] at h
      cases h
    | ok t =>
      rw [ht] at h
      cases h
      obtain ⟨hwell, htext⟩ := MethodType.parse_ok_iff.mp ht
      exact ⟨⟨t, hwell, rfl⟩, htext⟩
  · rintro ⟨⟨t, hwell, rfl⟩, rfl⟩
    have ht : MethodType.parse t.spelled.raw = .ok t := MethodType.parse_ok_iff.mpr ⟨hwell, rfl⟩
    rw [ht]
    rfl

theorem argSlots_eq_sum (m : MethodDescriptor) :
    m.argSlots = (m.args.map (·.type.slots)).sum := by
  have hstep (n : Nat) (arg : FieldDescriptor) :
      (if arg.type.isWide then n + 2 else n + 1) = n + arg.type.slots := by
    rw [FieldType.slots]
    split_ifs <;> rfl
  simp only [argSlots, hstep, List.sum_eq_foldl, List.foldl_map]

theorem argSlots_spelled (t : MethodType) : t.spelled.argSlots = t.argSlots := by
  simp [argSlots_eq_sum, MethodType.argSlots_eq, MethodType.spelled, Function.comp_def]

theorem parse_iff_composed :
    (∀ s m, parse s = .ok m ↔ m.Composed ∧ m.raw = s) ∧
    (∀ m m' : MethodDescriptor, m.Composed → m'.Composed → m.raw = m'.raw → m = m') ∧
    (∀ m : MethodDescriptor, m.Composed → m.argSlots =
      (m.args.map fun a => if a.raw = text "J" ∨ a.raw = text "D" then 2 else 1).sum) ∧
    (∀ s, parse s = (MethodType.parse s).map MethodType.spelled) ∧
    ∀ t : MethodType, t.spelled.argSlots = t.argSlots := by
  refine ⟨fun s m => parse_ok_iff, ?_, ?_, parse_spelled, argSlots_spelled⟩
  · intro m m' h h' hraw
    have hparse := parse_ok_iff.mpr ⟨h, hraw⟩
    rw [parse_ok_iff.mpr ⟨h', rfl⟩] at hparse
    exact (Except.ok.inj hparse).symm
  · intro m h
    rw [argSlots_eq_sum]
    refine congrArg List.sum (List.map_congr_left fun a ha => ?_)
    rw [FieldType.slots_eq, (h.args a ha).raw_eq]

/-- The class name among the arguments looks like the end of the arguments, a result and the
beginning of others. -/
def misleading : MethodDescriptor where
  raw := text "(IL)V[(;[JD)V"
  args := [.primitive (text "I") .int, .object (text "L)V[(;") (text ")V[("),
    .array (text "[J") (.primitive (text "J") .long), .primitive (text "D") .double]
  result := none

theorem parse_iff_composed_misleading : misleading.Composed ∧
    parse (text "(IL)V[(;[JD)V") = .ok misleading ∧ misleading.argSlots = 5 ∧
    ∀ m, m.Composed → m.raw = text "(IL)V[(;[JD)V" → m = misleading := by
  obtain ⟨hparse, hunique, hslots, -⟩ := parse_iff_composed
  have h : misleading.Composed := by
    refine ⟨rfl, ?_, nofun⟩
    simpa [misleading] using ⟨rfl, rfl, rfl, rfl⟩
  exact ⟨h, (hparse _ _).mpr ⟨h, rfl⟩, hslots _ h, fun m hm hraw => hunique _ _ hm h hraw⟩

end MethodDescriptor

end ClassHeader
