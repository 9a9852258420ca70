import ClassHeader.Proofs.Cpp.Bases
import ClassHeader.Proofs.Cpp.Members

/-!
# Members with the name of their struct

In C++ the name of a struct is taken inside of it: a function with that name is a
constructor, and a static member may not have it. Members are renamed only when they
meet each other, and no renaming leads to the name of the struct or away from it. So a
struct has a member with its own name exactly when its class has a field or a method
that is named like the class.
-/

namespace ClassHeader.Cpp

open Utf8 (lossyChars)

-- ---------------------------------------------------------------------------
-- Renamed members
-- ---------------------------------------------------------------------------

namespace Header

theorem added_candidateTail (name : Bytes) {n : Nat} (hn : n ≠ 0) :
    Added (candidateTail name n) := by
  have hletter : ∀ s, Ascii.underscore ∉ s → Added (text "_F" ++ s) := by
    intro s hs
    have hopening : text "_F" = text "_" ++ [70] := by decide
    rw [hopening, List.append_assoc, List.singleton_append]
    exact .of_notMem (by simp [escapeMarks, Ascii.underscore]) hs
  rcases n with _ | _ | n
  · exact absurd rfl hn
  · simpa [candidateTail] using hletter [] (by simp)
  · exact hletter _ (underscore_notMem_ofNat _)

section

variable {name other : Bytes} {n : Nat}

theorem fieldCandidate_eq_mangle (hname : name ≠ []) (h : fieldCandidate name n = mangle other) :
    mangle name = mangle other := by
  by_cases hn : n = 0
  · rw [← h, hn, fieldCandidate]
  · rw [fieldCandidate_eq] at h
    exact absurd h.symm (mangle_ne_added other hname (added_candidateTail name hn))

theorem numbered_eq_mangle (hname : name ≠ []) (h : numbered name n = mangle other) :
    mangle name = mangle other := by
  by_cases hn : n = 0
  · rw [← h, hn, numbered_zero]
  · rw [numbered_of_ne_zero _ hn] at h
    exact absurd h.symm (mangle_ne_numberTail other hname n)

end

-- ---------------------------------------------------------------------------
-- Members that keep their names
-- ---------------------------------------------------------------------------

theorem escape_eq_of_overloadKey_eq {m other : ResolvedMethod}
    (h : overloadKey m = overloadKey other) : escape m.name = escape other.name := by
  have hname : ∀ method : ResolvedMethod,
      (overloadKey method).takeWhile (· ≠ Ascii.openParen) = escape method.name := by
    intro method
    have hparen : ∀ b ∈ escape method.name, decide (b ≠ Ascii.openParen) = true := by
      intro b hb
      have hrest := isIdentRest_of_mem (escapes_escape method.name).isIdentifier hb
      refine decide_eq_true fun heq => ?_
      rw [heq] at hrest
      cases hrest
    rw [overloadKey, MethodType.descriptor, List.append_assoc,
      List.takeWhile_append_of_pos hparen]
    simp [Ascii.openParen, Ascii.closeParen]
  rw [← hname m, ← hname other, h]

theorem mangle_mem_methodNamesFrom {earlier : List Bytes} {methods : List ResolvedMethod}
    {m : ResolvedMethod} (hm : m ∈ methods) (hfirst : overloadKey m ∉ earlier) :
    mangle m.name ∈ methodNamesFrom earlier methods := by
  induction methods generalizing earlier with
  | nil => cases hm
  | cons first methods ih =>
    rw [methodNamesFrom, List.mem_cons]
    by_cases hkey : overloadKey m = overloadKey first
    · left
      have hcount : earlier.count (overloadKey first) = 0 :=
        List.count_eq_zero_of_not_mem (hkey ▸ hfirst)
      rw [hcount, if_pos rfl, List.append_nil, mangle, escape_eq_of_overloadKey_eq hkey]
    · right
      have hrest : m ∈ methods := by
        rcases List.mem_cons.mp hm with rfl | hrest
        · exact absurd rfl hkey
        · exact hrest
      exact ih hrest (List.not_mem_cons_of_ne_of_not_mem hkey hfirst)

theorem mangle_mem_fieldNamesFrom {taken : List Bytes} {fields : List ResolvedField}
    {f : ResolvedField} (hf : f ∈ fields) :
    mangle f.name ∈ taken ∨ mangle f.name ∈ fieldNamesFrom taken fields := by
  induction fields generalizing taken with
  | nil => cases hf
  | cons first fields ih =>
    rw [fieldNamesFrom, List.mem_cons]
    rcases List.mem_cons.mp hf with rfl | hrest
    · obtain ⟨n, hname, -, hbefore⟩ := exists_freshFieldName taken f.name
      cases n with
      | zero => exact .inr (.inl hname.symm)
      | succ n => exact .inl (hbefore 0 n.succ_pos)
    · rcases ih hrest with htaken | hlater
      · rcases List.mem_cons.mp htaken with hfirst | htaken
        · exact .inr (.inl hfirst)
        · exact .inl htaken
      · exact .inr (.inr hlater)

end Header

-- ---------------------------------------------------------------------------
-- The scope of a struct
-- ---------------------------------------------------------------------------

def Member.name : Member → Bytes
  | .field name | .function name _ => name

namespace Header

variable {options : HeaderOptions} {c : ResolvedClass} {node : Node}

def namedMembers (c : ResolvedClass) : List (Bytes × Bytes) :=
  (c.fields.zip (fieldNames c)).map (fun (f, identifier) => (f.name, identifier)) ++
    (c.methods.zip (methodNames c)).map fun (m, identifier) => (m.name, identifier)

theorem mem_names_of_mem_namedMembers {member : Bytes × Bytes} (h : member ∈ namedMembers c) :
    member.1 ∈ c.fields.map (·.name) ∨ member.1 ∈ c.methods.map (·.name) := by
  rcases List.mem_append.mp h with hfield | hmethod
  · obtain ⟨⟨f, identifier⟩, hf, rfl⟩ := List.mem_map.mp hfield
    exact .inl (List.mem_map_of_mem (List.of_mem_zip hf).1)
  · obtain ⟨⟨m, identifier⟩, hm, rfl⟩ := List.mem_map.mp hmethod
    exact .inr (List.mem_map_of_mem (List.of_mem_zip hm).1)

theorem map_snd_namedMembers (c : ResolvedClass) :
    (namedMembers c).map Prod.snd = fieldNames c ++ methodNames c := by
  rw [namedMembers, List.map_append, List.map_map, List.map_map]
  congr 1
  · exact List.map_snd_zip (length_fieldNamesFrom _ _).le
  · exact List.map_snd_zip (length_methodNamesFrom _ _).le

theorem map_name_memberDecls (h : definition options c = .ok node) :
    node.memberDecls.map Member.name = (namedMembers c).map Prod.snd := by
  have hfunctions : (functions c).map Prod.fst = methodNames c := by
    rw [functions, List.map_map]
    exact List.map_snd_zip (length_methodNamesFrom _ _).le
  rw [memberDecls_definition h, List.map_append, List.map_map, List.map_map,
    map_snd_namedMembers, ← hfunctions]
  congr 1
  exact List.map_id _

/-- Whatever name a renamed member gets, it is no name of another class or member. -/
theorem mangle_eq_of_mem_namedMembers {member : Bytes × Bytes} {simple : Bytes}
    (h : member ∈ namedMembers c) (hname : member.1 ≠ []) (heq : member.2 = mangle simple) :
    mangle member.1 = mangle simple := by
  rcases List.mem_append.mp h with hfield | hmethod
  · obtain ⟨⟨f, identifier⟩, hf, rfl⟩ := List.mem_map.mp hfield
    obtain ⟨-, n, rfl⟩ := fieldNamesFrom_free hf
    exact fieldCandidate_eq_mangle hname heq
  · obtain ⟨⟨m, identifier⟩, hm, rfl⟩ := List.mem_map.mp hmethod
    obtain ⟨n, -, rfl⟩ := methodNamesFrom_numbered hm
    exact numbered_eq_mangle hname heq

theorem mangle_mem_namedMembers {name : Bytes}
    (h : name ∈ c.fields.map (·.name) ∨ name ∈ c.methods.map (·.name)) :
    mangle name ∈ (namedMembers c).map Prod.snd := by
  have hmethods : ∀ m ∈ c.methods, mangle m.name ∈ methodNames c := fun m hm =>
    mangle_mem_methodNamesFrom hm List.not_mem_nil
  rw [map_snd_namedMembers, List.mem_append]
  rcases h with hfield | hmethod
  · obtain ⟨f, hf, rfl⟩ := List.mem_map.mp hfield
    rcases mangle_mem_fieldNamesFrom hf with htaken | hown
    · obtain ⟨m, hm, heq⟩ := List.mem_map.mp htaken
      exact .inr (heq ▸ hmethods m hm)
    · exact .inl hown
  · obtain ⟨m, hm, rfl⟩ := List.mem_map.mp hmethod
    exact .inr (hmethods m hm)

/-- The one struct that defines a class has a member with the struct's own name exactly when a
field or a method of the class is read as the same characters as the class inside its package, or
when a member without any name was renamed to it. -/
theorem definition_own_name_iff {options : HeaderOptions} {c : ResolvedClass} {node : Node}
    (h : definition options c = .ok node) :
    ∃ struct, node.structs [] = [struct] ∧
      struct.1.name = mangle (splitClassName c.name).2 ∧
      node.memberDecls.map Member.name = (namedMembers c).map Prod.snd ∧
      (struct.1.name ∈ node.memberDecls.map Member.name ↔
        (∃ name, (name ∈ c.fields.map (·.name) ∨ name ∈ c.methods.map (·.name)) ∧
          lossyChars name = lossyChars (splitClassName c.name).2) ∨
        ([], struct.1.name) ∈ namedMembers c) := by
  refine ⟨_, definition_structs h, rfl, map_name_memberDecls h, ?_⟩
  rw [map_name_memberDecls h]
  constructor
  · intro hmem
    obtain ⟨⟨name, identifier⟩, hmember, rfl⟩ := List.mem_map.mp hmem
    by_cases hname : name = []
    · exact .inr (hname ▸ hmember)
    · refine .inl ⟨name, ?_, mangle_eq_iff.mp (mangle_eq_of_mem_namedMembers hmember hname rfl)⟩
      exact mem_names_of_mem_namedMembers hmember
  · rintro (⟨name, hname, hchars⟩ | hunnamed)
    · have hmem := mangle_mem_namedMembers hname
      rw [mangle_eq_iff.mpr hchars] at hmem
      exact hmem
    · exact List.mem_map_of_mem hunnamed

def underscored : ResolvedClass :=
  { memberless (text "p/B_F") with
    fields := [⟨text "B", .primitive .int, AccessFlags.isStatic, []⟩]
    methods := [⟨text "B", ⟨[], none⟩, AccessFlags.isAbstract, []⟩] }

theorem definition_own_name_iff_underscored :
    ∃ node struct, definition {} underscored = .ok node ∧ node.structs [] = [struct] ∧
      struct.1.name = text "B__F" ∧
      node.memberDecls.map Member.name = [text "B_F", text "B"] ∧
      (struct.1.name ∈ node.memberDecls.map Member.name ↔
        (∃ name,
          (name ∈ underscored.fields.map (·.name) ∨ name ∈ underscored.methods.map (·.name)) ∧
          lossyChars name = lossyChars (splitClassName underscored.name).2) ∨
        ([], struct.1.name) ∈ namedMembers underscored) := by
  have hok : (definition {} underscored).toBool = true := by decide +kernel
  cases hnode : definition {} underscored with
  | error e =>
    rw [hnode] at hok
    cases hok
  | ok node =>
    obtain ⟨struct, hstruct, hname, hnames, hiff⟩ := definition_own_name_iff hnode
    refine ⟨node, struct, rfl, hstruct, hname.trans (by decide +kernel), ?_, hiff⟩
    exact hnames.trans (by decide +kernel)

def selfNamed : ResolvedClass :=
  { memberless (text "A") with
    fields := [⟨text "A", .primitive .int, AccessFlags.isStatic, []⟩] }

theorem definition_field_named_as_struct :
    ∃ node struct, definition {} selfNamed = .ok node ∧ node.structs [] = [struct] ∧
      struct.1.name = text "A" ∧ node.memberDecls = [.field (text "A")] := by
  have hdecls : (definition {} selfNamed).map Node.memberDecls = .ok [.field (text "A")] := by
    decide +kernel
  cases hnode : definition {} selfNamed with
  | error e =>
    rw [hnode] at hdecls
    cases hdecls
  | ok node =>
    rw [hnode] at hdecls
    exact ⟨node, _, rfl, definition_structs hnode, by decide +kernel, Except.ok.inj hdecls⟩

end Header
end ClassHeader.Cpp
