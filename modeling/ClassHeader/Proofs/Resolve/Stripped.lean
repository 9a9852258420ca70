import ClassHeader.Proofs.ClassFile.Code
import ClassHeader.Resolve.Resolver

/-!
# Passing attributes over

To pass over the attributes of some names is to resolve the class file without them:
without those of the class and its members, and without those inside of code, which is
written again without them.
-/

namespace ClassHeader

open Binary

-- ---------------------------------------------------------------------------
-- Removing attributes
-- ---------------------------------------------------------------------------

/-- What is left of an attribute: nothing of one that has an ignored name, and all of any other,
except that code is written without the ignored attributes inside of it. -/
def Attribute.stripped (ignored : List Bytes) (p : Pool) (a : Attribute) : Option Attribute :=
  match a.name p with
  | .error _ => some a
  | .ok name =>
    if name ∈ ignored then none
    else
      match _h : Payload.code p a with
      | .error _ => some a
      | .ok c =>
        let kept := c.attributes.attach.filterMap fun b => b.1.stripped ignored p
        some { a with info := ((Code.encode { c with attributes := kept }).toOption).getD a.info }
termination_by a.info.length
decreasing_by exact Payload.info_lt_of_code _h b.2

def strippedAttributes (ignored : List Bytes) (p : Pool) (attributes : List Attribute) :
    List Attribute :=
  attributes.filterMap (Attribute.stripped ignored p)

def MemberInfo.stripped (ignored : List Bytes) (p : Pool) (m : MemberInfo) : MemberInfo :=
  { m with attributes := strippedAttributes ignored p m.attributes }

def ClassFile.stripped (ignored : List Bytes) (c : ClassFile) : ClassFile :=
  { c with
    fields := c.fields.map (MemberInfo.stripped ignored c.pool)
    methods := c.methods.map (MemberInfo.stripped ignored c.pool)
    attributes := strippedAttributes ignored c.pool c.attributes }

def Code.stripped (ignored : List Bytes) (p : Pool) (c : Code) : Code :=
  { c with attributes := strippedAttributes ignored p c.attributes }

section

variable {ignored : List Bytes} {p : Pool} {a b : Attribute} {c : Code}

theorem Attribute.stripped_eq : a.stripped ignored p =
    match a.name p with
    | .error _ => some a
    | .ok name =>
      if name ∈ ignored then none
      else
        match Payload.code p a with
        | .error _ => some a
        | .ok c => some { a with info := (c.stripped ignored p).encode.toOption.getD a.info } := by
  have hattach : ∀ attributes : List Attribute,
      attributes.attach.filterMap (fun b => b.1.stripped ignored p) =
        strippedAttributes ignored p attributes := by
    intro attributes
    conv_rhs => rw [strippedAttributes, ← List.attach_map_subtype_val attributes]
    rw [List.filterMap_map]
    rfl
  rw [Attribute.stripped]
  simp only [hattach]
  cases a.name p with
  | error e => rfl
  | ok name =>
    dsimp only
    split_ifs
    · rfl
    · split <;> simp [*, Code.stripped]

/-- An attribute goes, stays as it is, or is code that is written again. -/
theorem Attribute.stripped_cases (ignored : List Bytes) (p : Pool) (a : Attribute) :
    (∃ name, a.name p = .ok name ∧ name ∈ ignored ∧ a.stripped ignored p = none) ∨
    ((∀ name, a.name p = .ok name → name ∉ ignored) ∧ (∀ c, Payload.code p a ≠ .ok c) ∧
      a.stripped ignored p = some a) ∨
    ∃ c, AttributeName.code ∉ ignored ∧ Payload.code p a = .ok c ∧
      a.stripped ignored p = some { a with info := (c.stripped ignored p).written } := by
  have heq : a.stripped ignored p = _ := Attribute.stripped_eq
  cases hname : a.name p with
  | error e =>
    have hcode : ∀ c, Payload.code p a ≠ .ok c := fun c hc => by
      cases hname.symm.trans (Payload.code_ok_iff.mp hc).1
    rw [hname] at heq
    exact .inr (.inl ⟨by simp, hcode, heq⟩)
  | ok name =>
    simp only [hname] at heq
    split_ifs at heq with hignored
    · exact .inl ⟨name, rfl, hignored, heq⟩
    · cases hc : Payload.code p a with
      | error e =>
        rw [hc] at heq
        exact .inr (.inl ⟨by simpa using hignored, by simp, heq⟩)
      | ok c =>
        obtain ⟨hcode, hwf, -⟩ := Payload.code_ok_iff.mp hc
        cases hname.symm.trans hcode
        have hencode : (c.stripped ignored p).encode = .ok (c.stripped ignored p).written :=
          Code.encode_of_pos hwf.code_pos
        simp only [hc, hencode] at heq
        exact .inr (.inr ⟨c, hignored, rfl, heq⟩)

theorem length_strippedAttributes_le {attributes : List Attribute}
    (h : ∀ a ∈ attributes, ∀ b, a.stripped ignored p = some b → b.info.length ≤ a.info.length) :
    ((strippedAttributes ignored p attributes).flatMap Attribute.encode).length ≤
      (attributes.flatMap Attribute.encode).length := by
  induction attributes with
  | nil => exact Nat.le_refl _
  | cons a attributes ih =>
    obtain ⟨hfirst, hrest⟩ := List.forall_mem_cons.mp h
    have hle := ih hrest
    cases hstripped : a.stripped ignored p with
    | none =>
      rw [strippedAttributes, List.filterMap_cons_none hstripped, List.flatMap_cons,
        List.length_append]
      exact Nat.le_add_left_of_le hle
    | some b =>
      have hinfo := hfirst b hstripped
      rw [strippedAttributes, List.filterMap_cons_some hstripped, List.flatMap_cons,
        List.flatMap_cons, List.length_append, List.length_append]
      simp only [Attribute.encode, List.length_append, length_u2, length_u4]
      rw [strippedAttributes] at hle
      omega

theorem Attribute.length_info_stripped_le (h : a.stripped ignored p = some b) :
    b.info.length ≤ a.info.length := by
  induction hsize : a.info.length using Nat.strongRecOn generalizing a b with
  | ind size ih =>
    subst hsize
    rcases a.stripped_cases ignored p with ⟨_, -, -, hnone⟩ | ⟨-, -, hsame⟩ | ⟨c, -, hc, hcode⟩
    · cases hnone.symm.trans h
    · cases hsame.symm.trans h
      exact Nat.le_refl _
    · cases hcode.symm.trans h
      obtain ⟨-, hwf, hencode⟩ := Payload.code_ok_iff.mp hc
      rw [Code.encode_of_pos hwf.code_pos] at hencode
      have hshorter : ((strippedAttributes ignored p c.attributes).flatMap encode).length ≤ _ :=
        length_strippedAttributes_le fun a ha b hb =>
          ih a.info.length (Payload.info_lt_of_code hc ha) hb rfl
      rw [← Except.ok.inj hencode]
      simp only [Code.written, Code.stripped, encodeTable, List.length_append, length_u2, length_u4]
      omega

theorem Code.WellFormed.stripped (h : c.WellFormed) : (c.stripped ignored p).WellFormed where
  code_pos := h.code_pos
  code_lt := h.code_lt
  spelled := h.spelled
  handlers := h.handlers
  attributes := by
    obtain ⟨hcount, hfits⟩ := h.attributes
    refine ⟨(List.length_filterMap_le _ _).trans hcount, fun b hb => ?_⟩
    obtain ⟨a, ha, hstripped⟩ := List.mem_filterMap.mp hb
    exact (Attribute.length_info_stripped_le hstripped).trans_lt (hfits a ha)

theorem Payload.code_stripped (h : Payload.code p a = .ok c) :
    Payload.code p { a with info := (c.stripped ignored p).written } =
      .ok (c.stripped ignored p) := by
  obtain ⟨hname, hwf, -⟩ := Payload.code_ok_iff.mp h
  exact Payload.code_ok_iff.mpr ⟨hname, hwf.stripped, Code.encode_of_pos hwf.code_pos⟩

end

-- ---------------------------------------------------------------------------
-- Resolving what is left
-- ---------------------------------------------------------------------------

namespace Resolver

variable {r : Resolver} {p : Pool} {a : Attribute}

section

variable {α β : Type} {path : List Bytes} {resolve : α → Result (Option ResolvedAttribute)}
  {resolve' : β → Result (Option ResolvedAttribute)}

theorem each_cons (a : α) (as : List α) : each path resolve (a :: as) = (do
    let first ← (resolve a).mapError (·.withPath path)
    let rest ← each path resolve as
    return first.toList ++ rest) := by
  simp only [each, List.mapM_cons]
  cases (resolve a).mapError (·.withPath path) with
  | error e => rfl
  | ok first =>
    cases as.mapM fun a => (resolve a).mapError (·.withPath path) with
    | error e => rfl
    | ok rest => cases first <;> rfl

theorem each_filterMap {strip : α → Option β} {as : List α}
    (h : ∀ a ∈ as, resolve a = (strip a).elim (.ok none) resolve') :
    each path resolve as = each path resolve' (as.filterMap strip) := by
  induction as with
  | nil => rfl
  | cons a as ih =>
    obtain ⟨hfirst, hrest⟩ := List.forall_mem_cons.mp h
    rw [each_cons, ih hrest, hfirst]
    cases hstrip : strip a with
    | none =>
      rw [List.filterMap_cons_none hstrip]
      exact bind_pure (each path resolve' (as.filterMap strip))
    | some b => rw [List.filterMap_cons_some hstrip, each_cons, Option.elim_some]

end

def resolveCode (r : Resolver) (p : Pool) (c : Code) : Result ResolvedAttribute := do
  let instructions ← c.instructions.mapM (instruction p)
  let handlers ← c.handlers.mapM (handler p)
  let attributes ← r.resolveAttributes p [text "code"] c.attributes
  return .code {
    maxStack := c.maxStack, maxLocals := c.maxLocals, instructions, handlers, attributes }

theorem each_attach (path : List Bytes) (attributes : List Attribute) :
    each path (fun b => r.resolveAttribute p b.1) attributes.attach =
      r.resolveAttributes p path attributes := by
  have hvalues : each path (fun b => r.resolveAttribute p b.1) attributes.attach =
      each path (r.resolveAttribute p) (attributes.attach.filterMap (some ·.1)) :=
    each_filterMap fun _ _ => rfl
  rwa [List.filterMap_eq_map', List.attach_map_subtype_val] at hvalues

theorem resolveAttribute_eq : r.resolveAttribute p a = (do
    let name ← a.name p
    if name ∈ r.ignored then return none
    else if name = AttributeName.code then return some (← Payload.code p a >>= r.resolveCode p)
    else return some (← flat p name a)) := by
  rw [resolveAttribute]
  simp only [each_attach]
  cases a.name p with
  | error e => rfl
  | ok name =>
    simp only [Result.ok_bind]
    split_ifs
    · rfl
    · split
      · rename_i e he
        rw [he]
        rfl
      · rename_i c hc
        rw [hc]
        simp only [Result.ok_bind, resolveCode, bind_assoc, pure_bind]
    · rfl

theorem resolveAttribute_of_code {c : Code} (hc : Payload.code p a = .ok c)
    (hkept : AttributeName.code ∉ r.ignored) :
    r.resolveAttribute p a = (do return some (← r.resolveCode p c)) := by
  rw [resolveAttribute_eq, (Payload.code_ok_iff.mp hc).1, Result.ok_bind, if_neg hkept, if_pos rfl,
    hc, Result.ok_bind]

theorem resolveAttribute_stripped (ignored : List Bytes) (p : Pool) (a : Attribute) :
    resolveAttribute ⟨ignored⟩ p a =
      (a.stripped ignored p).elim (.ok none) (resolveAttribute ⟨[]⟩ p) := by
  induction hsize : a.info.length using Nat.strongRecOn generalizing a with
  | ind size ih =>
    subst hsize
    rcases a.stripped_cases ignored p with
      ⟨name, hname, hignored, hnone⟩ | ⟨hkept, hcode, hsame⟩ | ⟨c, hkept, hc, hcode⟩
    · rw [hnone, resolveAttribute_eq, hname, Result.ok_bind, if_pos hignored]
      rfl
    · rw [hsame, Option.elim_some, resolveAttribute_eq, resolveAttribute_eq]
      cases hname : a.name p with
      | error e => rfl
      | ok name =>
        rw [Result.ok_bind, Result.ok_bind, if_neg (hkept name hname), if_neg List.not_mem_nil]
        -- The two resolvers could differ inside of code only, and there is none.
        cases hpayload : Payload.code p a with
        | ok c => exact absurd hpayload (hcode c)
        | error e => rfl
    · have hattributes : resolveAttributes ⟨ignored⟩ p [text "code"] c.attributes =
          resolveAttributes ⟨[]⟩ p [text "code"] (strippedAttributes ignored p c.attributes) :=
        each_filterMap fun b hb => ih b.info.length (Payload.info_lt_of_code hc hb) b rfl
      have hbody : resolveCode ⟨ignored⟩ p c = resolveCode ⟨[]⟩ p (c.stripped ignored p) := by
        rw [resolveCode, resolveCode, hattributes]
        rfl
      rw [hcode, Option.elim_some, resolveAttribute_of_code hc hkept,
        resolveAttribute_of_code (Payload.code_stripped hc) List.not_mem_nil, hbody]

variable {ignored : List Bytes}

theorem resolveAttributes_stripped (path : List Bytes) (attributes : List Attribute) :
    resolveAttributes ⟨ignored⟩ p path attributes =
      resolveAttributes ⟨[]⟩ p path (strippedAttributes ignored p attributes) :=
  each_filterMap fun a _ => resolveAttribute_stripped ignored p a

theorem resolveMember_stripped (path : List Bytes) (m : MemberInfo) :
    resolveAttributes ⟨ignored⟩ p path m.attributes =
      resolveAttributes ⟨[]⟩ p path (m.stripped ignored p).attributes :=
  resolveAttributes_stripped path m.attributes

theorem resolveField_stripped (f : MemberInfo) :
    resolveField ⟨ignored⟩ p f = resolveField ⟨[]⟩ p (f.stripped ignored p) := by
  simp only [resolveField, resolveMember_stripped _ f]
  rfl

theorem resolveMethod_stripped (m : MemberInfo) :
    resolveMethod ⟨ignored⟩ p m = resolveMethod ⟨[]⟩ p (m.stripped ignored p) := by
  simp only [resolveMethod, resolveMember_stripped _ m]
  rfl

/-- Passing over the attributes of some names gives what the class file without them gives: the
same class, or the same error. -/
theorem resolve_eq_resolve_stripped (ignored : List Bytes) (c : ClassFile) :
    resolve ⟨ignored⟩ c = resolve ⟨[]⟩ (c.stripped ignored) := by
  have hcontents : ∀ name,
      contents ⟨ignored⟩ c name = contents ⟨[]⟩ (c.stripped ignored) name := by
    intro name
    have hfields : c.fields.mapM (resolveField ⟨ignored⟩ c.pool) =
        (c.stripped ignored).fields.mapM (resolveField ⟨[]⟩ c.pool) := by
      simp only [ClassFile.stripped, List.mapM_map, Function.comp_def, ← resolveField_stripped]
    have hmethods : c.methods.mapM (resolveMethod ⟨ignored⟩ c.pool) =
        (c.stripped ignored).methods.mapM (resolveMethod ⟨[]⟩ c.pool) := by
      simp only [ClassFile.stripped, List.mapM_map, Function.comp_def, ← resolveMethod_stripped]
    rw [contents, contents, hfields, hmethods, resolveAttributes_stripped]
    rfl
  simp only [resolve, hcontents]
  rfl

end Resolver
end ClassHeader
