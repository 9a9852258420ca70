import ClassHeader.Proofs.ClassFile.Draft

/-!
# Assembled class files

`Draft.exists_run_of_assemble`: a class file that is assembled from symbolic parts can be
drafted call by call, so what is true of all drafts is true of it.
-/

namespace ClassHeader

theorem ClassFile.onPool_bind {α β : Type} (c : ClassFile) (part : Assembly α)
    (next : α → Assembly β) : c.onPool (part >>= next) = (do
      let (a, c) ← c.onPool part
      c.onPool (next a)) := by
  simp only [onPool, ExceptT.run_bind, StateT.run_bind]
  rcases part.run.run c.pool with ⟨_ | a, pool⟩ <;> rfl

namespace Draft

def Leads (d d' : Draft) : Prop := ∃ calls, List.foldlM perform d calls = .ok d'

section

variable {d d₁ d' : Draft} {call : Call}

theorem Leads.refl (d : Draft) : Leads d d := ⟨[], rfl⟩

theorem Leads.trans (h : Leads d d₁) (h' : Leads d₁ d') : Leads d d' := by
  obtain ⟨calls, hcalls⟩ := h
  obtain ⟨calls', hcalls'⟩ := h'
  exact ⟨calls ++ calls', by rw [List.foldlM_append, hcalls]; exact hcalls'⟩

theorem Leads.of_perform (h : d.perform call = .ok d') : Leads d d' :=
  ⟨[call], by rw [List.foldlM_cons, h]; rfl⟩

theorem made_subset_of_perform (h : d.perform call = .ok d') : d.made ⊆ d'.made := by
  cases call with
  | version | access | interface | constant | classAttribute =>
    cases h
    exact List.Subset.refl _
  | payload name info =>
    cases h
    exact List.subset_append_left _ _
  | code c =>
    obtain ⟨info, -, h⟩ := Result.bind_ok_iff.mp h
    cases h
    exact List.subset_append_left _ _
  | field | method =>
    cases h
    exact List.Subset.refl _

theorem Leads.made_subset (h : Leads d d') : d.made ⊆ d'.made := by
  obtain ⟨calls, hcalls⟩ := h
  induction calls generalizing d with
  | nil =>
    cases hcalls
    exact List.Subset.refl _
  | cons call calls ih =>
    rw [List.foldlM_cons, Result.bind_ok_iff] at hcalls
    obtain ⟨d₁, hfirst, hrest⟩ := hcalls
    exact List.Subset.trans (made_subset_of_perform hfirst) (ih hrest)

end

/-- What the part does to a class file can be done by calls on any draft that has made the `known`
attributes, and the `new` attributes of its result are made by then. -/
def Drafts {α : Type} (known : List Attribute) (part : Assembly α) (new : α → List Attribute) :
    Prop :=
  ∀ d a file, known ⊆ d.made → d.file.onPool part = .ok (a, file) →
    ∃ d', Leads d d' ∧ d'.file = file ∧ new a ⊆ d'.made

section

variable {α β : Type} {known : List Attribute}

theorem Drafts.pure {new : α → List Attribute} {a : α} (h : new a ⊆ known) :
    Drafts known (pure a) new := by
  rintro d _ _ hknown ⟨⟩
  exact ⟨d, .refl d, rfl, List.Subset.trans h hknown⟩

theorem Drafts.bind {part : Assembly α} {next : α → Assembly β} {new : α → List Attribute}
    {new' : β → List Attribute} (hpart : Drafts known part new)
    (hnext : ∀ a, Drafts (known ++ new a) (next a) new') : Drafts known (part >>= next) new' := by
  intro d b file hknown h
  rw [ClassFile.onPool_bind, Result.bind_ok_iff] at h
  obtain ⟨⟨a, middle⟩, hfirst, hrest⟩ := h
  obtain ⟨d₁, hlead, rfl, hnew⟩ := hpart d a middle hknown hfirst
  have hboth : known ++ new a ⊆ d₁.made :=
    List.append_subset.mpr ⟨List.Subset.trans hknown hlead.made_subset, hnew⟩
  obtain ⟨d', hlead', hfile, hnew'⟩ := hnext a d₁ b file hboth hrest
  exact ⟨d', hlead.trans hlead', hfile, hnew'⟩

theorem Drafts.addSource (source : ConstantSource) :
    Drafts known (Pool.addSource source : Assembly UInt16) fun _ => [] := by
  intro d i file _ h
  have hcall : d.perform (.constant source) = .ok { d with file } := by
    simp only [perform, ClassFile.extend, h]
    rfl
  exact ⟨_, .of_perform hcall, rfl, List.nil_subset _⟩

theorem Drafts.addUtf8 (v : Bytes) :
    Drafts known (Pool.addUtf8 v : Assembly UInt16) fun _ => [] :=
  .addSource (.utf8 v)

theorem Drafts.addClass (name : Bytes) :
    Drafts known (Pool.addClass name : Assembly UInt16) fun _ => [] :=
  .addSource (.classRef name)

theorem Drafts.ofExcept (r : Result α) :
    Drafts known (MonadExcept.ofExcept r) fun _ => [] := by
  intro d a file _ h
  cases r with
  | error e => cases h
  | ok a =>
    cases h
    exact ⟨d, .refl d, rfl, List.nil_subset _⟩

theorem Drafts.mapM {f : α → Assembly β} (hf : ∀ known a, Drafts known (f a) fun _ => [])
    (as : List α) : Drafts known (as.mapM f) fun _ => [] := by
  induction as generalizing known with
  | nil => exact .pure (List.nil_subset _)
  | cons a as ih =>
    rw [List.mapM_cons]
    exact .bind (hf _ a) fun _ => .bind ih fun _ => .pure (List.nil_subset _)

theorem Drafts.ite {c : Prop} [Decidable c] {part part' : Assembly α} {new : α → List Attribute}
    (h : Drafts known part new) (h' : Drafts known part' new) :
    Drafts known (if c then part else part') new := by
  split
  · exact h
  · exact h'

theorem Drafts.named (name info : Bytes) :
    Drafts known (AttributeSource.named name info) ([·]) := by
  intro d a file _ h
  have hcall : d.perform (.payload name info) = .ok { file, made := d.made ++ [a] } := by
    simp only [perform, make, onPool, h]
    rfl
  exact ⟨_, .of_perform hcall, rfl, List.subset_append_right _ _⟩

theorem Drafts.localVariable (known : List Attribute) (row : LocalVariableSource) :
    Drafts known (AttributeSource.localVariable row) fun _ => [] :=
  .bind (.addUtf8 _) fun _ => .bind (.addUtf8 _) fun _ => .pure (List.nil_subset _)

theorem Drafts.innerClass (known : List Attribute) (row : InnerClassSource) :
    Drafts known (AttributeSource.innerClass row) fun _ => [] := by
  have hnone {known} : Drafts known (Pure.pure 0 : Assembly UInt16) fun _ => [] :=
    .pure (List.nil_subset _)
  refine .bind (.addClass _) fun _ => ?_
  -- Either of the other names may be missing.
  refine .ite (.bind hnone fun _ => .ite ?_ ?_) (.bind (.addClass _) fun _ => .ite ?_ ?_)
  all_goals first
    | exact .bind hnone fun _ => .pure (List.nil_subset _)
    | exact .bind (.addUtf8 _) fun _ => .pure (List.nil_subset _)

end

mutual

theorem drafts_assemble {known : List Attribute} :
    (a : AttributeSource) → Drafts known a.assemble ([·])
  | .code _ _ _ _ _ attributes => .bind (drafts_assembleAll attributes) fun _ =>
    .bind (.ofExcept _) fun _ => .named _ _
  | .lineNumbers _ => .named _ _
  | .localVariables rows => .bind (.mapM .localVariable rows) fun _ => .named _ _
  | .exceptions classes => .bind (.mapM (fun _ => .addClass) classes) fun _ => .named _ _
  | .innerClasses rows => .bind (.mapM .innerClass rows) fun _ => .named _ _
  | .bootstrapMethods _ => .named _ _
  | .index _ _ => .named _ _
  | .payload _ _ => .named _ _

theorem drafts_assembleAll {known : List Attribute} :
    (as : List AttributeSource) → Drafts known (AttributeSource.assembleAll as) id
  | [] => .pure (List.nil_subset _)
  | a :: rest => .bind (drafts_assemble a) fun _ => .bind (drafts_assembleAll rest) fun _ =>
    .pure (by simp)

end

theorem exists_numbers {made attributes : List Attribute} (h : attributes ⊆ made) :
    ∃ numbers : List Nat, numbers.filterMap (made[·]?) = attributes := by
  induction attributes with
  | nil => exact ⟨[], rfl⟩
  | cons a attributes ih =>
    obtain ⟨ha, hrest⟩ := List.cons_subset.mp h
    obtain ⟨number, hnumber⟩ := List.mem_iff_getElem?.mp ha
    obtain ⟨numbers, hnumbers⟩ := ih hrest
    exact ⟨number :: numbers, by rw [List.filterMap_cons_some hnumber, hnumbers]⟩

section

variable {d : Draft} {file : ClassFile}

theorem exists_member {m : MemberSource} {info : MemberInfo}
    (h : d.file.onPool m.assemble = .ok (info, file)) : ∃ d₁ numbers, Leads d d₁ ∧
      d₁.member m.access m.name m.descriptor numbers = .ok (info, { d₁ with file }) := by
  rw [MemberSource.assemble, ClassFile.onPool_bind, Result.bind_ok_iff] at h
  obtain ⟨⟨attributes, middle⟩, hattributes, h⟩ := h
  obtain ⟨d₁, hlead, rfl, hmade⟩ :=
    drafts_assembleAll m.attributes d attributes middle (List.nil_subset _) hattributes
  obtain ⟨numbers, hnumbers⟩ := exists_numbers hmade
  have hinfo : info.attributes = attributes := by
    cases h
    rfl
  have hbare : d₁.file.onPool (MemberSource.assemble
      { access := m.access, name := m.name, descriptor := m.descriptor, attributes := [] }) =
        .ok ({ info with attributes := [] }, file) := by
    cases h
    rfl
  refine ⟨d₁, numbers, hlead, ?_⟩
  simp only [member, onPool, hbare, Result.ok_bind, pure_bind]
  rw [hnumbers, id_eq, ← hinfo]
  rfl

theorem extend_leads {step : BuildStep} {index : Option UInt16}
    (h : d.file.extend step = .ok (index, file)) : ∃ d', Leads d d' ∧ d'.file = file := by
  have hplain : ∀ call, (d.perform call = do return { d with file := (← d.file.extend step).2 }) →
      ∃ d', Leads d d' ∧ d'.file = file := by
    intro call hcall
    rw [h] at hcall
    exact ⟨_, .of_perform hcall, rfl⟩
  cases step with
  | version major minor => exact hplain (.version major minor) rfl
  | access flags => exact hplain (.access flags) rfl
  | interface name => exact hplain (.interface name) rfl
  | constant source => exact hplain (.constant source) rfl
  | field m =>
    obtain ⟨⟨info, middle⟩, hm, h⟩ := Result.bind_ok_iff.mp h
    obtain ⟨d₁, numbers, hlead, hmember⟩ := exists_member hm
    cases Result.pure_ok_iff.mp h
    have hcall : d₁.perform (.field m.access m.name m.descriptor numbers) =
        .ok { d₁ with file := { middle with fields := middle.fields ++ [info] } } := by
      rw [perform, hmember]
      rfl
    exact ⟨_, hlead.trans (.of_perform hcall), rfl⟩
  | method m =>
    obtain ⟨⟨info, middle⟩, hm, h⟩ := Result.bind_ok_iff.mp h
    obtain ⟨d₁, numbers, hlead, hmember⟩ := exists_member hm
    cases Result.pure_ok_iff.mp h
    have hcall : d₁.perform (.method m.access m.name m.descriptor numbers) =
        .ok { d₁ with file := { middle with methods := middle.methods ++ [info] } } := by
      rw [perform, hmember]
      rfl
    exact ⟨_, hlead.trans (.of_perform hcall), rfl⟩
  | classAttribute a =>
    obtain ⟨⟨a, middle⟩, ha, h⟩ := Result.bind_ok_iff.mp h
    obtain ⟨d₁, hlead, rfl, hmade⟩ := drafts_assemble _ d a middle (List.nil_subset _) ha
    obtain ⟨number, hnumber⟩ := List.mem_iff_getElem?.mp (hmade List.mem_cons_self)
    cases Result.pure_ok_iff.mp h
    have hcall : d₁.perform (.classAttribute number) =
        .ok { d₁ with file := { d₁.file with attributes := d₁.file.attributes ++ [a] } } := by
      rw [perform, hnumber]
      rfl
    exact ⟨_, hlead.trans (.of_perform hcall), rfl⟩

theorem extendAll_leads {steps : List BuildStep} {indices : List UInt16}
    (h : d.file.extendAll steps = .ok (indices, file)) : ∃ d', Leads d d' ∧ d'.file = file := by
  induction steps generalizing d indices with
  | nil =>
    cases h
    exact ⟨d, .refl d, rfl⟩
  | cons step steps ih =>
    obtain ⟨⟨index, middle⟩, hfirst, hrest⟩ := Result.bind_ok_iff.mp h
    obtain ⟨d₁, hlead, rfl⟩ := extend_leads hfirst
    obtain ⟨⟨others, last⟩, hothers, hlast⟩ := Result.bind_ok_iff.mp hrest
    cases Result.pure_ok_iff.mp hlast
    obtain ⟨d', hlead', rfl⟩ := ih hothers
    exact ⟨d', hlead.trans hlead', rfl⟩

end

/-- Everything that is assembled can be drafted. -/
theorem exists_run_of_assemble {name superName : Bytes} {steps : List BuildStep}
    {indices : List UInt16} {file : ClassFile}
    (h : ClassFile.assemble name superName steps = .ok (indices, file)) :
    ∃ calls d, run name superName calls = .ok d ∧ d.file = file := by
  have hstart : (start name superName).file.extendAll steps = .ok (indices, file) := h
  obtain ⟨d, ⟨calls, hcalls⟩, hfile⟩ := extendAll_leads hstart
  exact ⟨calls, d, hcalls, hfile⟩

end Draft
end ClassHeader
