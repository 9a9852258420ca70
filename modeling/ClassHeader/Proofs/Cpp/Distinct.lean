import ClassHeader.Proofs.Cpp.Declared

/-!
# Classes of one name

Class names are bytes, and C++ names are made of the characters that are read from
them. Two classes of a header have the same C++ name exactly when their names are
read as the same characters: with a replacement for each stray byte, and without a
slash in front. So a header defines no class twice exactly when no two of its
classes are read as the same characters.
-/

namespace ClassHeader.Cpp

open Utf8 (lossyChars)

-- ---------------------------------------------------------------------------
-- Identifiers
-- ---------------------------------------------------------------------------

theorem eq_ofChars_iff {name : Bytes} {chars : List Char} (hchars : '\uFFFD' ∉ chars) :
    name = Text.ofChars chars ↔ lossyChars name = chars := by
  constructor
  · rintro rfl
    exact Utf8.lossyChars_ofChars chars
  · rintro rfl
    exact (Utf8.ofChars_lossyChars hchars).symm

/-- The special methods are told from other names by their bytes, but no stray byte is read as one
of their characters. -/
theorem escape_congr {name other : Bytes} (h : lossyChars name = lossyChars other) :
    escape name = escape other := by
  have hinit : name = text "<init>" ↔ other = text "<init>" := by
    rw [text, eq_ofChars_iff (by decide), eq_ofChars_iff (by decide), h]
  have hclinit : name = text "<clinit>" ↔ other = text "<clinit>" := by
    rw [text, eq_ofChars_iff (by decide), eq_ofChars_iff (by decide), h]
  simp only [escape, hinit, hclinit, h]

theorem mangle_eq_iff {name other : Bytes} :
    mangle name = mangle other ↔ lossyChars name = lossyChars other := by
  constructor
  · intro h
    have hchars := congrArg (fun s => lossyChars (demangle s)) h
    simpa only [demangle_mangle_lossy, Utf8.lossyChars_ofChars] using hchars
  · intro h
    rw [mangle, mangle, escape_congr h]

theorem map_mangle_eq_iff {parts others : List Bytes} :
    parts.map mangle = others.map mangle ↔ parts.map lossyChars = others.map lossyChars := by
  induction parts generalizing others with
  | nil => cases others <;> simp
  | cons part parts ih =>
    cases others with
    | nil => simp
    | cons other others => simp only [List.map_cons, List.cons.injEq, mangle_eq_iff, ih]

-- ---------------------------------------------------------------------------
-- Class names
-- ---------------------------------------------------------------------------

def unslashed (name : Bytes) : Bytes :=
  if name.head? = some Ascii.slash then name.tail else name

/-- The characters that a class name is read as. -/
def readName (name : Bytes) : List Char := lossyChars (unslashed name)

theorem qualifiedName_of_package {name : Bytes} (h : [] ∉ packageParts (splitClassName name).1) :
    qualifiedName name = scopePath (Text.splitOn Ascii.slash (unslashed name)) := by
  by_cases hslash : name.head? = some Ascii.slash
  · obtain ⟨simple, rfl⟩ : ∃ simple, name = Ascii.slash :: simple := by
      cases name with
      | nil => cases hslash
      | cons b simple =>
        cases hslash
        exact ⟨simple, rfl⟩
    rw [unslashed, if_pos hslash, List.tail_cons, Text.splitOn_eq_splitLast?]
    cases hlast : Text.splitLast? Ascii.slash simple with
    | none =>
      have hsplit : splitClassName (Ascii.slash :: simple) = ([], simple) := by
        simp [splitClassName, Text.splitLast?, hlast]
      rw [qualifiedName, hsplit]
      rfl
    | some parts =>
      -- Before a second slash the package would start with an empty part.
      have hsplit : splitClassName (Ascii.slash :: simple) =
          (Ascii.slash :: parts.1, parts.2) := by
        simp [splitClassName, Text.splitLast?, hlast]
      rw [hsplit, packageParts, if_neg (List.cons_ne_nil _ _), Text.splitOn, if_pos rfl] at h
      exact absurd List.mem_cons_self h
  · rw [unslashed, if_neg hslash, qualifiedName_eq hslash]

theorem qualifiedName_eq_iff {name other : Bytes}
    (hname : [] ∉ packageParts (splitClassName name).1)
    (hother : [] ∉ packageParts (splitClassName other).1) :
    qualifiedName name = qualifiedName other ↔ readName name = readName other := by
  rw [qualifiedName_of_package hname, qualifiedName_of_package hother, scopePath_eq_iff,
    map_mangle_eq_iff, Utf8.map_lossyChars_splitOn (by decide),
    Utf8.map_lossyChars_splitOn (by decide)]
  constructor
  · intro h
    have hjoined := congrArg [Char.ofNat Ascii.slash.toNat].intercalate h
    rwa [List.intercalate_splitOn, List.intercalate_splitOn] at hjoined
  · intro h
    rw [← readName, ← readName, h]

theorem readName_injOn :
    Set.InjOn readName {name | Utf8.isValid name = true ∧ name.head? ≠ some Ascii.slash} := by
  rintro name ⟨hname, hnameSlash⟩ other ⟨hother, hotherSlash⟩ heq
  obtain ⟨chars, rfl⟩ := Utf8.isValid_iff.mp hname
  obtain ⟨others, rfl⟩ := Utf8.isValid_iff.mp hother
  rw [readName, readName, unslashed, unslashed, if_neg hnameSlash, if_neg hotherSlash,
    Utf8.lossyChars_ofChars, Utf8.lossyChars_ofChars] at heq
  rw [heq]

theorem Place.ofClass_eq_iff {name other : Bytes} :
    Place.ofClass name = Place.ofClass other ↔ qualifiedName name = qualifiedName other := by
  constructor
  · intro h
    rw [← qualified_ofClass, ← qualified_ofClass, h]
  · intro h
    have hspelled : ∀ name, qualifiedName name =
        scopePath (packageParts (splitClassName name).1 ++ [(splitClassName name).2]) :=
      fun _ => rfl
    rw [hspelled, hspelled, scopePath_eq_iff, List.map_append, List.map_append] at h
    obtain ⟨hscopes, hsimple⟩ := List.append_inj' h rfl
    rw [Place.ofClass, Place.ofClass, hscopes, (List.cons.inj hsimple).1]

-- ---------------------------------------------------------------------------
-- Classes of a header
-- ---------------------------------------------------------------------------

inductive Introduced (order : List Bytes) (classes : List ResolvedClass) : Bytes → Prop
  | listed {name : Bytes} (h : name ∈ order) (hname : name ≠ []) : Introduced order classes name
  | mentioned {c : ResolvedClass} {name : Bytes} (hc : c ∈ classes) (h : Mentions c name)
    (hname : name ≠ []) : Introduced order classes name
  | defined {c : ResolvedClass} (hc : c ∈ classes) : Introduced order classes c.name

section

variable {options : HeaderOptions} {order : List Bytes} {classes : List ResolvedClass} {node : Node}

theorem Introduced.package {name : Bytes} (hname : Introduced order classes name)
    (h : header options order classes = .ok node) :
    [] ∉ packageParts (splitClassName name).1 := by
  obtain ⟨heading, declared, defined, hdeclared, hdefined, -⟩ := header_ok h
  have hpackages := (Header.declarations_ok hdeclared).1
  cases hname with
  | listed horder hname => exact hpackages name (Header.mem_declaredNames.mpr ⟨hname, .inl horder⟩)
  | mentioned hc hmentions hname =>
    exact hpackages name (Header.mem_declaredNames.mpr ⟨hname, .inr ⟨_, hc, hmentions⟩⟩)
  | defined hc =>
    obtain ⟨d, -, hd⟩ := Result.exists_mem_of_mapM hdefined hc
    exact (Header.definition_ok hd).1

theorem count_defined (h : header options order classes = .ok node) (place : Place) :
    (node.items []).count (.defined place) =
      (classes.map fun c => Place.ofClass c.name).count place := by
  have hinjective : Function.Injective Item.defined := fun _ _ => Item.defined.inj
  have hdeclared : ∀ names : List Bytes,
      (names.map fun name => Item.declared (.ofClass name)).count (.defined place) = 0 := by
    intro names
    simp [List.count_eq_zero]
  rw [header_items h, List.count_append, hdeclared, Nat.zero_add,
    ← List.count_map_of_injective _ _ hinjective, List.map_map]
  rfl

end

/-- Two classes of a header have one C++ name exactly when their names are read as the same
characters, and a class is defined twice exactly when two classes of the list are read so. Names
that are well-formed text without a slash in front are read differently. -/
theorem header_names_equal_iff {options : HeaderOptions} {order : List Bytes}
    {classes : List ResolvedClass} {node : Node} (h : header options order classes = .ok node) :
    (∀ name other, Introduced order classes name → Introduced order classes other →
      (qualifiedName name = qualifiedName other ↔ readName name = readName other)) ∧
    ((∀ place, (node.items []).count (.defined place) ≤ 1) ↔
      (classes.map fun c => readName c.name).Nodup) ∧
    Set.InjOn readName {name | Utf8.isValid name = true ∧ name.head? ≠ some Ascii.slash} := by
  have hnames : ∀ name other, Introduced order classes name → Introduced order classes other →
      (qualifiedName name = qualifiedName other ↔ readName name = readName other) :=
    fun _ _ hname hother => qualifiedName_eq_iff (hname.package h) (hother.package h)
  refine ⟨hnames, ?_, readName_injOn⟩
  -- Definitions are counted by their places, and two classes share a place when they share a name.
  simp only [count_defined h]
  rw [← List.nodup_iff_count_le_one, List.Nodup, List.Nodup, List.pairwise_map, List.pairwise_map]
  refine List.Pairwise.iff_of_mem fun hc hd => not_congr ?_
  rw [Place.ofClass_eq_iff, hnames _ _ (.defined hc) (.defined hd)]

def memberless (name : Bytes) : ResolvedClass where
  name
  superName := []
  sourceFile := []
  interfaces := []
  fields := []
  methods := []
  attributes := []
  access := AccessFlags.isPublic
  major := 52
  minor := 0

def slashAndUnderscore : List Bytes := [text "a/b", text "a_b"]

theorem header_names_equal_iff_slashAndUnderscore :
    ∃ node, header {} slashAndUnderscore (slashAndUnderscore.map memberless) = .ok node ∧
      (∀ name other,
        Introduced slashAndUnderscore (slashAndUnderscore.map memberless) name →
        Introduced slashAndUnderscore (slashAndUnderscore.map memberless) other →
        (qualifiedName name = qualifiedName other ↔ readName name = readName other)) ∧
      ∀ place, (node.items []).count (.defined place) ≤ 1 := by
  have hok : (header {} slashAndUnderscore (slashAndUnderscore.map memberless)).toBool = true := by
    decide +kernel
  cases hnode : header {} slashAndUnderscore (slashAndUnderscore.map memberless) with
  | error e =>
    rw [hnode] at hok
    cases hok
  | ok node =>
    obtain ⟨hnames, hdefined, -⟩ := header_names_equal_iff hnode
    exact ⟨node, rfl, hnames, hdefined.mpr (by decide +kernel)⟩

/-- The letter U+1D400 as class files have it: two surrogates of three bytes each. -/
def boldA : Bytes := [0xED, 0xA0, 0xB5, 0xED, 0xB0, 0x80]

def boldB : Bytes := [0xED, 0xA0, 0xB5, 0xED, 0xB0, 0x81]

theorem header_defines_bold_letters_twice :
    ∃ node, header {} [boldA, boldB] [memberless boldA, memberless boldB] = .ok node ∧
      boldA ≠ boldB ∧ Introduced [boldA, boldB] [memberless boldA, memberless boldB] boldA ∧
      Introduced [boldA, boldB] [memberless boldA, memberless boldB] boldB ∧
      qualifiedName boldA = qualifiedName boldB ∧
      ∃ place, (node.items []).count (.defined place) = 2 := by
  have hitems : (header {} [boldA, boldB] [memberless boldA, memberless boldB]).map
      (Node.items []) =
        .ok [.declared (.ofClass boldA), .declared (.ofClass boldA), .defined (.ofClass boldA),
          .defined (.ofClass boldA)] := by
    decide +kernel
  cases hnode : header {} [boldA, boldB] [memberless boldA, memberless boldB] with
  | error e =>
    rw [hnode] at hitems
    cases hitems
  | ok node =>
    rw [hnode] at hitems
    refine ⟨node, rfl, by decide, .listed (by decide) (by decide), .listed (by decide) (by decide),
      by decide +kernel, .ofClass boldA, ?_⟩
    rw [Except.ok.inj hitems]
    decide +kernel

end ClassHeader.Cpp
