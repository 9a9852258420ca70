import ClassHeader.ClassFile.Decode

/-!
# The steps of decoding

Decoding looks at the bytes of a class file only through reads for its parts and,
behind the last of them, through `readEnd`. A property of these steps that
sequences of steps keep is therefore a property of decoding, whatever constants,
members and attributes the file has.
-/

namespace ClassHeader

def Fault.Nameless (f : Fault) : Prop := f.className = [] ∧ f.kind.category ≠ .unclassified

namespace ClassFile

open Binary

/-- Steps that are made of reads for parts of a file, faults and the check for its end. -/
inductive Composed : {α : Type} → Read α → Prop
  | pure {α : Type} (a : α) : Composed (pure a : Read α)
  | fault {α : Type} (fault : Fault) (h : fault.Nameless) :
    Composed (throw (.fault fault) : Read α)
  | position : Composed Read.position
  | part {α : Type} (part : Bytes) (width : Nat) (value : Bytes → α) :
    Composed (readPart part (do return value (← Read.take width)))
  | done : Composed readEnd
  | bind {α β : Type} {step : Read α} {next : α → Read β} (hstep : Composed step)
    (hnext : ∀ a, Composed (next a)) : Composed (step >>= next)

namespace Composed

variable {α : Type}

theorem ensure {c : Prop} [Decidable c] {fault : Fault} (h : fault.Nameless) :
    Composed (ClassHeader.ensure c (.fault fault) : Read Unit) := by
  unfold ClassHeader.ensure
  split
  · exact .pure ()
  · exact .fault _ h

theorem times {step : Read α} (h : Composed step) (n : Nat) : Composed (Read.times step n) := by
  induction n with
  | zero => exact .pure []
  | succ n ih => exact .bind h fun _ => .bind ih fun _ => .pure _

theorem u1 (part : Bytes) : Composed (readPart part Read.u1) := .part part 1 _
theorem u2 (part : Bytes) : Composed (readPart part Read.u2) := .part part 2 _
theorem u4 (part : Bytes) : Composed (readPart part Read.u4) := .part part 4 _

theorem take (part : Bytes) (n : Nat) : Composed (readPart part (Read.take n)) := by
  rw [← bind_pure (Read.take n)]
  exact .part part n id

theorem table {element : Read α} (part : Bytes) (h : Composed element) :
    Composed (readTable part element) :=
  .bind (u2 part) fun _ => h.times _

end Composed

-- ---------------------------------------------------------------------------
-- The pool
-- ---------------------------------------------------------------------------

theorem readPayload_composed (place : Nat) (tag : Tag) : Composed (readPayload place tag) := by
  have hindex := Composed.u2 poolPart
  have hword := Composed.u4 poolPart
  cases tag with
  | utf8 => exact .bind hindex fun _ => .bind (.take _ _) fun _ => .pure _
  | methodHandle =>
    exact .bind (.u1 _) fun _ => .bind (.ensure ⟨rfl, nofun⟩) fun _ =>
      .bind hindex fun _ => .pure _
  | integer | float => exact .bind hword fun _ => .pure _
  | long | double => exact .bind hword fun _ => .bind hword fun _ => .pure _
  | classRef | string | methodType | moduleRef | packageRef =>
    exact .bind hindex fun _ => .pure _
  | fieldRef | methodRef | interfaceMethodRef | nameAndType | dynamic | invokeDynamic =>
    exact .bind hindex fun _ => .bind hindex fun _ => .pure _

theorem readConstant_composed : Composed readConstant := by
  refine .bind .position fun place => .bind (.u1 _) fun code => ?_
  cases Tag.ofCode? code with
  | some tag => exact readPayload_composed place tag
  | none => exact .fault _ ⟨rfl, nofun⟩

theorem readEntries_composed (index left : Nat) : Composed (readEntries index left) := by
  -- A wide constant takes two slots, so the induction is over all smaller counts.
  induction left using Nat.strongRecOn generalizing index with
  | ind left ih =>
    cases left with
    | zero =>
      simp only [readEntries]
      exact .pure []
    | succ left =>
      simp only [readEntries]
      refine .bind .position fun place => .bind readConstant_composed fun c => ?_
      split
      · cases left with
        | zero => exact .fault _ ⟨rfl, nofun⟩
        | succ left => exact .bind (ih left (by omega) _) fun _ => .pure _
      · exact .bind (ih left (by omega) _) fun _ => .pure _

theorem readPool_composed : Composed readPool :=
  .bind (.u2 _) fun _ => .bind (.ensure ⟨rfl, nofun⟩) fun _ =>
    .bind (readEntries_composed _ _) fun _ => .pure _

-- ---------------------------------------------------------------------------
-- Members, attributes and whole files
-- ---------------------------------------------------------------------------

theorem readAttributes_composed (part : Bytes) : Composed (readAttributes part) :=
  .table part <| .bind (.u2 part) fun _ => .bind (.u4 part) fun _ =>
    .bind (.take part _) fun _ => .pure _

theorem readMember_composed (part : Bytes) : Composed (readMember part) :=
  .bind (.u2 part) fun _ => .bind (.u2 part) fun _ => .bind (.u2 part) fun _ =>
    .bind (readAttributes_composed part) fun _ => .pure _

theorem read_composed : Composed read := by
  unfold read
  refine .bind (.u4 _) fun magic => .bind (.ensure ⟨rfl, nofun⟩) fun _ => ?_
  refine .bind (.u2 _) fun minor => .bind (.u2 _) fun major => ?_
  refine .bind (.ensure ⟨rfl, nofun⟩) fun _ => ?_
  refine .bind readPool_composed fun pool => ?_
  refine .bind (.u2 _) fun access => .bind (.u2 _) fun this => .bind (.u2 _) fun super => ?_
  refine .bind (.table _ (.u2 _)) fun interfaces => ?_
  refine .bind (.table _ (readMember_composed _)) fun fields => ?_
  refine .bind (.table _ (readMember_composed _)) fun methods => ?_
  exact .bind (readAttributes_composed _) fun attributes => .bind .done fun _ => .pure _

end ClassFile
end ClassHeader
