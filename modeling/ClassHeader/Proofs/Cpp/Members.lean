import ClassHeader.Proofs.Cpp.Declared
import ClassHeader.Proofs.Cpp.Parameters

/-!
# Members of a struct

Fields and methods of a struct share one scope. No two methods have one identifier and
the same types of parameters, no two fields have one identifier, and no field has the
identifier of a method. Methods that would be one function are numbered; a number stands
behind an underscore that opens no escape, so a numbered name is no name of its own, and
a field is renamed in a way in which no method is.
-/

namespace ClassHeader.Cpp

-- ---------------------------------------------------------------------------
-- Numbered names
-- ---------------------------------------------------------------------------

theorem append_underscore_inj {s t front back : Bytes} (hs : Ascii.underscore ∉ s)
    (ht : Ascii.underscore ∉ t)
    (h : front ++ Ascii.underscore :: s = back ++ Ascii.underscore :: t) :
    front = back ∧ s = t := by
  rcases List.append_eq_append_iff.mp h with ⟨middle, rfl, htail⟩ | ⟨middle, rfl, htail⟩
  · cases middle with
    | nil => exact ⟨(List.append_nil _).symm, (List.cons.inj htail).2⟩
    | cons b middle =>
      have hmem : Ascii.underscore ∈ s := by
        rw [(List.cons.inj htail).2]
        simp
      exact absurd hmem hs
  · cases middle with
    | nil => exact ⟨List.append_nil _, (List.cons.inj htail).2.symm⟩
    | cons b middle =>
      have hmem : Ascii.underscore ∈ t := by
        rw [(List.cons.inj htail).2]
        simp
      exact absurd hmem ht

/-- What is put behind a name: it starts with an underscore that opens no escape, and ends with
another byte. -/
structure Added (tail : Bytes) : Prop where
  opening : ∃ b rest, tail = text "_" ++ b :: rest ∧ b ∉ escapeMarks
  ending : tail.getLast? ≠ some Ascii.underscore

theorem Added.of_notMem {b : UInt8} {rest : Bytes} (hmark : b ∉ escapeMarks)
    (hrest : Ascii.underscore ∉ rest) : Added (text "_" ++ b :: rest) where
  opening := ⟨b, rest, rfl, hmark⟩
  ending := by
    have hb : b ≠ Ascii.underscore := fun heq => hmark (heq ▸ by decide)
    intro hlast
    rw [text_underscore, List.singleton_append, List.getLast?_cons_cons] at hlast
    rcases List.mem_cons.mp (List.mem_of_getLast? hlast) with hfirst | hmem
    · exact hb hfirst.symm
    · exact hrest hmem

def numberTail (n : Nat) : Bytes := text "_" ++ Text.ofNat n

theorem underscore_notMem_ofNat (n : Nat) : Ascii.underscore ∉ Text.ofNat n := by
  intro h
  have hdigit := Netstring.isDigit_of_mem_ofNat h
  cases hdigit

theorem numberTail_eq (n : Nat) : numberTail n = Ascii.underscore :: Text.ofNat n := by
  rw [numberTail, text_underscore, List.singleton_append]

theorem exists_digit_ofNat (n : Nat) : ∃ d rest, Text.ofNat n = d :: rest ∧ d.toNat ≤ 57 := by
  cases h : Text.ofNat n with
  | nil => exact absurd h (Netstring.ofNat_ne_nil n)
  | cons d rest =>
    have hdigit : Netstring.isDigit d = true :=
      Netstring.isDigit_of_mem_ofNat (by rw [h]; exact List.mem_cons_self)
    refine ⟨d, rest, rfl, ?_⟩
    simp only [Netstring.isDigit, Bool.and_eq_true, decide_eq_true_eq,
      UInt8.le_iff_toNat_le] at hdigit
    exact hdigit.2

theorem added_numberTail (n : Nat) : Added (numberTail n) := by
  obtain ⟨d, rest, hdigits, hd⟩ := exists_digit_ofNat n
  have hrest : Ascii.underscore ∉ rest := fun hmem =>
    underscore_notMem_ofNat n (hdigits ▸ List.mem_cons_of_mem _ hmem)
  rw [numberTail, hdigits]
  exact .of_notMem (notMem_escapeMarks_of_le hd) hrest

section

variable {tail : Bytes}

theorem Added.unescape?_eq (h : Added tail) : unescape? tail = none := by
  obtain ⟨b, rest, rfl, hb⟩ := h.opening
  exact unescape?_unmarked hb rest

theorem Added.unescape?_flatMap (h : Added tail) (chars : List Char) :
    unescape? (chars.flatMap escapeChar ++ tail) = none := by
  induction chars with
  | nil => exact h.unescape?_eq
  | cons c chars ih =>
    rw [List.flatMap_cons, List.append_assoc, unescape?_escapeChar, ih, Option.map_none]

theorem Added.ne_append (h : Added tail) {word t : Bytes} (hword : Ascii.underscore ∉ word.drop 1)
    (ht : t ≠ []) : word ≠ t ++ tail := by
  rintro rfl
  obtain ⟨_, _, rfl, -⟩ := h.opening
  cases t with
  | nil => exact ht rfl
  | cons b t => exact hword (by simp [text_underscore])

end

theorem escapeChar_ne_digit (c : Char) {d : UInt8} (hd : d.toNat ≤ 57) (s t : Bytes) :
    escapeChar c ++ s ≠ text "_" ++ d :: t := by
  rw [text_underscore, List.singleton_append]
  by_cases hplain : (c.isAlpha || c.isDigit) = true
  · obtain ⟨b, hescape, -, hne⟩ := escapeChar_plain hplain
    rw [hescape, List.singleton_append]
    exact fun h => hne (List.cons.inj h).1
  · -- Every escape has a letter or an underscore behind its first byte.
    have hmarked : ∃ mark rest, escapeChar c = Ascii.underscore :: mark :: rest ∧
        57 < mark.toNat := by
      rw [escapeChar, if_neg hplain]
      split_ifs
      · exact ⟨95, [], by decide, by decide⟩
      · exact ⟨83, [], by decide, by decide⟩
      · exact ⟨117, _, by rw [show text "_u" = [95, 117] by decide]; rfl, by decide⟩
      · exact ⟨85, _, by rw [show text "_U" = [95, 85] by decide]; rfl, by decide⟩
    obtain ⟨mark, rest, hescape, hmark⟩ := hmarked
    rw [hescape]
    intro h
    have heq : mark = d := (List.cons.inj (List.cons.inj h).2).1
    rw [heq] at hmark
    omega

theorem eq_nil_of_lossyChars {name : Bytes} (h : Utf8.lossyChars name = []) : name = [] := by
  have hback := Utf8.ofChars_lossyChars (s := name) (by simp [h])
  rw [← hback, h]
  rfl

section

variable {name other s t tail : Bytes}

theorem Escapes.ne_nil (h : Escapes name s) : s ≠ [] := by
  rintro rfl
  cases h.isIdentifier

theorem Escapes.unescape?_added (h : Escapes name s) (hname : name ≠ []) (htail : Added tail) :
    unescape? (s ++ tail) = none := by
  cases h with
  | init _ =>
    rw [show text "_init" = [95, 105, 110, 105, 116] by decide]
    conv_lhs => unfold unescape?
    rfl
  | clinit _ =>
    rw [show text "_clinit" = [95, 99, 108, 105, 110, 105, 116] by decide]
    conv_lhs => unfold unescape?
    rfl
  | empty h => exact absurd (eq_nil_of_lossyChars h) hname
  | digit _ hc =>
    obtain ⟨b, hescape, hbyte, -⟩ := escapeChar_plain (Bool.or_eq_true_iff.mpr (.inr hc))
    have hb : b.toNat ≤ 57 := hbyte ▸ (toNat_of_isDigit hc).2
    rw [List.flatMap_cons, hescape, List.append_assoc, List.append_assoc, List.singleton_append,
      unescape?_digit hb]
  | plain _ _ => exact htail.unescape?_flatMap _

theorem Escapes.ne_added (h : Escapes name s) (hother : Escapes other t) (hne : other ≠ [])
    (htail : Added tail) : s ≠ t ++ tail := by
  intro heq
  have hnone := hother.unescape?_added hne htail
  rw [← heq] at hnone
  cases h with
  | init _ => exact htail.ne_append (by decide) hother.ne_nil heq
  | clinit _ => exact htail.ne_append (by decide) hother.ne_nil heq
  | empty _ => exact htail.ne_append (by decide) hother.ne_nil heq
  | plain _ _ =>
    rw [unescape?_flatMap] at hnone
    cases hnone
  | @digit c rest _ hc =>
    obtain ⟨b, hescape, hbyte, -⟩ := escapeChar_plain (Bool.or_eq_true_iff.mpr (.inr hc))
    have hb : b.toNat ≤ 57 := hbyte ▸ (toNat_of_isDigit hc).2
    -- The other name then starts with an underscore and a digit as well.
    cases hother with
    | init _ =>
      rw [List.flatMap_cons, hescape, text_underscore,
        show text "_init" = [95, 105, 110, 105, 116] by decide] at heq
      have hmark : b = 105 := (List.cons.inj (List.cons.inj heq).2).1
      rw [hmark] at hb
      exact absurd hb (by decide)
    | clinit _ =>
      rw [List.flatMap_cons, hescape, text_underscore,
        show text "_clinit" = [95, 99, 108, 105, 110, 105, 116] by decide] at heq
      have hmark : b = 99 := (List.cons.inj (List.cons.inj heq).2).1
      rw [hmark] at hb
      exact absurd hb (by decide)
    | empty h => exact hne (eq_nil_of_lossyChars h)
    | digit _ _ =>
      rw [List.append_assoc] at heq
      have hchars := congrArg unescape? (List.append_cancel_left heq)
      rw [unescape?_flatMap, htail.unescape?_flatMap] at hchars
      cases hchars
    | plain _ _ =>
      rw [List.flatMap_cons, hescape, List.flatMap_cons, List.append_assoc] at heq
      exact escapeChar_ne_digit _ hb _ _ heq.symm

end

theorem escape_eq_of_mangle_eq {name other : Bytes} (h : mangle name = mangle other) :
    escape name = escape other := by
  have hbare := congrArg bare h
  rwa [mangle, mangle, bare_unreserved (escapes_escape name).ne_reserved,
    bare_unreserved (escapes_escape other).ne_reserved] at hbare

/-- The identifier of a name is the escaped name with at most one underscore behind it. -/
theorem mangle_eq_append (name : Bytes) :
    ∃ tail, (tail = [] ∨ tail = text "_") ∧ mangle name = escape name ++ tail := by
  rw [mangle, unreserved]
  split_ifs
  · exact ⟨_, .inr rfl, rfl⟩
  · exact ⟨[], .inl rfl, (List.append_nil _).symm⟩

theorem mangle_ne_added (name : Bytes) {other tail : Bytes} (hother : other ≠ [])
    (htail : Added tail) : mangle name ≠ escape other ++ tail := by
  obtain ⟨back, rfl | rfl, hback⟩ := mangle_eq_append name
  · rw [hback, List.append_nil]
    exact (escapes_escape name).ne_added (escapes_escape other) hother htail
  · intro heq
    have hlast := congrArg List.getLast? heq
    obtain ⟨b, rest, hopening, -⟩ := htail.opening
    have hsome : tail.getLast?.isSome = true := by simp [hopening, text_underscore]
    rw [hback, text_underscore, List.getLast?_append, List.getLast?_singleton, Option.some_or,
      List.getLast?_append, Option.or_of_isSome hsome] at hlast
    exact htail.ending hlast.symm

theorem mangle_ne_numberTail (name : Bytes) {other : Bytes} (hother : other ≠ []) (n : Nat) :
    mangle name ≠ escape other ++ numberTail n :=
  mangle_ne_added name hother (added_numberTail n)

namespace Header

theorem exists_mem_zip {α β : Type} {xs : List α} {ys : List β} (hlength : ys.length ≤ xs.length)
    {y : β} (h : y ∈ ys) : ∃ x, (x, y) ∈ xs.zip ys := by
  rw [← List.map_snd_zip hlength, List.mem_map] at h
  obtain ⟨⟨x, _⟩, hpair, rfl⟩ := h
  exact ⟨x, hpair⟩

-- ---------------------------------------------------------------------------
-- Identifiers of methods
-- ---------------------------------------------------------------------------

/-- The identifier of a method, of which `n` others with its key came before. -/
def numbered (name : Bytes) (n : Nat) : Bytes :=
  unreserved (escape name ++ if n = 0 then [] else text "_" ++ Text.ofNat n)

theorem numbered_zero (name : Bytes) : numbered name 0 = mangle name := by
  rw [numbered, if_pos rfl, List.append_nil, mangle]

theorem numbered_of_ne_zero (name : Bytes) {n : Nat} (hn : n ≠ 0) :
    numbered name n = escape name ++ numberTail n := by
  rw [numbered, if_neg hn, unreserved, ← List.append_assoc, isReserved_append_ofNat, if_neg
    Bool.false_ne_true, List.append_assoc, numberTail]

theorem numbered_inj {name other : Bytes} {n k : Nat} (hname : name ≠ []) (hother : other ≠ [])
    (h : numbered name n = numbered other k) : escape name = escape other ∧ n = k := by
  by_cases hn : n = 0
  · by_cases hk : k = 0
    · rw [hn, hk, numbered_zero, numbered_zero] at h
      exact ⟨escape_eq_of_mangle_eq h, hn.trans hk.symm⟩
    · rw [hn, numbered_zero, numbered_of_ne_zero _ hk] at h
      exact absurd h (mangle_ne_numberTail name hother k)
  · by_cases hk : k = 0
    · rw [hk, numbered_zero, numbered_of_ne_zero _ hn] at h
      exact absurd h.symm (mangle_ne_numberTail other hname n)
    · rw [numbered_of_ne_zero _ hn, numbered_of_ne_zero _ hk, numberTail_eq, numberTail_eq] at h
      obtain ⟨hescape, hdigits⟩ :=
        append_underscore_inj (underscore_notMem_ofNat n) (underscore_notMem_ofNat k) h
      exact ⟨hescape, ofNat_injective hdigits⟩

theorem length_methodNamesFrom (earlier : List Bytes) (methods : List ResolvedMethod) :
    (methodNamesFrom earlier methods).length = methods.length := by
  induction methods generalizing earlier with
  | nil => rfl
  | cons m methods ih => rw [methodNamesFrom, List.length_cons, ih, List.length_cons]

/-- The number of a method counts at least all methods of its key that came before. -/
theorem methodNamesFrom_numbered {earlier : List Bytes} {methods : List ResolvedMethod}
    {m : ResolvedMethod} {name : Bytes}
    (h : (m, name) ∈ methods.zip (methodNamesFrom earlier methods)) :
    ∃ n, earlier.count (overloadKey m) ≤ n ∧ name = numbered m.name n := by
  induction methods generalizing earlier with
  | nil => cases h
  | cons first methods ih =>
    rw [methodNamesFrom, List.zip_cons_cons, List.mem_cons] at h
    rcases h with hfirst | hrest
    · cases hfirst
      exact ⟨_, le_rfl, rfl⟩
    · obtain ⟨n, hn, hname⟩ := ih hrest
      exact ⟨n, le_trans (List.count_le_count_cons ..) hn, hname⟩

theorem overloadKey_congr {m other : ResolvedMethod} (hname : escape m.name = escape other.name)
    (hargs : m.type.args = other.type.args) : overloadKey m = overloadKey other := by
  have hfront : ∀ method : ResolvedMethod,
      method.type.descriptor.takeWhile (· ≠ Ascii.closeParen) =
        (Ascii.openParen :: method.type.args.flatMap FieldType.descriptor).takeWhile
          (· ≠ Ascii.closeParen) := by
    intro method
    rw [MethodType.descriptor, List.takeWhile_append]
    split_ifs with hall
    · rw [List.takeWhile_cons_of_neg (by simp), List.append_nil,
        (List.takeWhile_prefix _).eq_of_length hall]
    · rfl
  rw [overloadKey, overloadKey, hname, hfront m, hfront other, hargs]

theorem methodNamesFrom_pairwise (earlier : List Bytes) {methods : List ResolvedMethod}
    (hnames : ∀ m ∈ methods, m.name ≠ []) :
    (methods.zip (methodNamesFrom earlier methods)).Pairwise fun a b =>
      a.2 = b.2 → a.1.type.args ≠ b.1.type.args := by
  induction methods generalizing earlier with
  | nil => exact List.Pairwise.nil
  | cons first methods ih =>
    rw [List.forall_mem_cons] at hnames
    rw [methodNamesFrom, List.zip_cons_cons]
    refine List.pairwise_cons.mpr ⟨?_, ih _ hnames.2⟩
    rintro ⟨m, name⟩ hm heq hargs
    obtain ⟨n, hn, rfl⟩ := methodNamesFrom_numbered hm
    have hnumbered : numbered first.name (earlier.count (overloadKey first)) =
        numbered m.name n := heq
    obtain ⟨hescape, hcount⟩ :=
      numbered_inj hnames.1 (hnames.2 m (List.of_mem_zip hm).1) hnumbered
    -- With the key of the first method, the number of the second counts the first, too.
    rw [← overloadKey_congr hescape hargs, List.count_cons_self] at hn
    omega

-- ---------------------------------------------------------------------------
-- Identifiers of fields
-- ---------------------------------------------------------------------------

def candidateTail (name : Bytes) : Nat → Bytes
  | 0 => if isReserved (escape name) then text "_" else []
  | 1 => text "_F"
  | n => text "_F" ++ Text.ofNat n

theorem fieldCandidate_eq (name : Bytes) (n : Nat) :
    fieldCandidate name n = escape name ++ candidateTail name n := by
  match n with
  | 0 =>
    rw [fieldCandidate, candidateTail, mangle, unreserved]
    split_ifs
    · rfl
    · exact (List.append_nil _).symm
  | 1 => rfl
  | n + 2 => exact List.append_assoc _ _ _

theorem fieldCandidate_injective (name : Bytes) : Function.Injective (fieldCandidate name) := by
  have hshort : ∀ n, candidateTail name 0 ≠ text "_F" ++ n := by
    intro n h
    rw [candidateTail, show text "_F" = [95, 70] by decide] at h
    split_ifs at h
    · rw [text_underscore] at h
      cases h
    · cases h
  have hplain : ∀ n, text "_F" ≠ text "_F" ++ Text.ofNat n := fun n h =>
    Netstring.ofNat_ne_nil n (List.append_right_eq_self.mp h.symm)
  intro n k h
  rw [fieldCandidate_eq, fieldCandidate_eq] at h
  have htail := List.append_cancel_left h
  match n, k, htail with
  | 0, 0, _ => rfl
  | 0, 1, htail => exact absurd htail (by simpa [candidateTail] using hshort [])
  | 0, k + 2, htail => exact absurd htail (hshort _)
  | 1, 0, htail => exact absurd htail.symm (by simpa [candidateTail] using hshort [])
  | 1, 1, _ => rfl
  | 1, k + 2, htail => exact absurd htail (hplain _)
  | n + 2, 0, htail => exact absurd htail.symm (hshort _)
  | n + 2, 1, htail => exact absurd htail.symm (hplain _)
  | n + 2, k + 2, htail => exact ofNat_injective (List.append_cancel_left htail)

theorem exists_freshFieldName (taken : List Bytes) (name : Bytes) :
    ∃ n, freshFieldName taken name = fieldCandidate name n ∧ fieldCandidate name n ∉ taken ∧
      ∀ k < n, fieldCandidate name k ∈ taken := by
  have hfound : ∃ n ∈ List.range (taken.length + 1), fieldCandidate name n ∉ taken := by
    by_contra hall
    push Not at hall
    -- There are more candidates than taken names.
    have hsub : (List.range (taken.length + 1)).map (fieldCandidate name) ⊆ taken := by
      intro candidate hcandidate
      obtain ⟨n, hn, rfl⟩ := List.mem_map.mp hcandidate
      exact hall n hn
    have hnodup := List.nodup_range (n := taken.length + 1) |>.map (fieldCandidate_injective name)
    have hlength := (List.subperm_of_subset hnodup hsub).length_le
    rw [List.length_map, List.length_range] at hlength
    omega
  rw [freshFieldName, List.find?_map]
  cases hfind : (List.range (taken.length + 1)).find?
      ((fun candidate => decide (candidate ∉ taken)) ∘ fieldCandidate name) with
  | none =>
    obtain ⟨n, hn, hfree⟩ := hfound
    have hnone := List.find?_eq_none.mp hfind n hn
    exact absurd (decide_eq_true hfree) hnone
  | some n =>
    obtain ⟨hfree, -, hbefore⟩ := List.find?_range_eq_some.mp hfind
    refine ⟨n, rfl, of_decide_eq_true hfree, fun k hk => ?_⟩
    simpa using hbefore k hk

theorem length_fieldNamesFrom (taken : List Bytes) (fields : List ResolvedField) :
    (fieldNamesFrom taken fields).length = fields.length := by
  induction fields generalizing taken with
  | nil => rfl
  | cons f fields ih => rw [fieldNamesFrom, List.length_cons, ih, List.length_cons]

theorem fieldNamesFrom_free {taken : List Bytes} {fields : List ResolvedField}
    {f : ResolvedField} {name : Bytes}
    (h : (f, name) ∈ fields.zip (fieldNamesFrom taken fields)) :
    name ∉ taken ∧ ∃ n, name = fieldCandidate f.name n := by
  induction fields generalizing taken with
  | nil => cases h
  | cons first fields ih =>
    rw [fieldNamesFrom, List.zip_cons_cons, List.mem_cons] at h
    rcases h with hfirst | hrest
    · cases hfirst
      obtain ⟨n, hname, hfree, -⟩ := exists_freshFieldName taken f.name
      rw [hname]
      exact ⟨hfree, n, rfl⟩
    · obtain ⟨hfree, hname⟩ := ih hrest
      exact ⟨fun hmem => hfree (List.mem_cons_of_mem _ hmem), hname⟩

theorem nodup_fieldNamesFrom (taken : List Bytes) (fields : List ResolvedField) :
    (fieldNamesFrom taken fields).Nodup := by
  induction fields generalizing taken with
  | nil => exact List.nodup_nil
  | cons f fields ih =>
    rw [fieldNamesFrom]
    refine List.nodup_cons.mpr ⟨fun hmem => ?_, ih _⟩
    obtain ⟨other, hother⟩ := exists_mem_zip (length_fieldNamesFrom _ fields).le hmem
    exact (fieldNamesFrom_free hother).1 List.mem_cons_self

/-- A field is renamed by letters, a method by a number. -/
theorem fieldCandidate_ne_numberTail (name : Bytes) {other : Bytes} (hother : other ≠ [])
    (n k : Nat) : fieldCandidate name n ≠ escape other ++ numberTail k := by
  have hletter : ∀ s, Ascii.underscore ∉ s →
      escape name ++ (text "_F" ++ s) ≠ escape other ++ numberTail k := by
    intro s hs heq
    rw [show text "_F" = [Ascii.underscore, 70] by decide, numberTail_eq] at heq
    have hmark : Ascii.underscore ∉ 70 :: s := List.not_mem_cons_of_ne_of_not_mem (by decide) hs
    have hbehind := (append_underscore_inj hmark (underscore_notMem_ofNat k) heq).2
    have hdigit : Netstring.isDigit 70 = true :=
      Netstring.isDigit_of_mem_ofNat (hbehind ▸ List.mem_cons_self)
    cases hdigit
  match n with
  | 0 => exact mangle_ne_numberTail name hother k
  | 1 =>
    rw [fieldCandidate_eq]
    simpa [candidateTail] using hletter [] (by simp)
  | n + 2 =>
    rw [fieldCandidate_eq]
    exact hletter _ (underscore_notMem_ofNat _)

theorem notMem_fieldNames {c : ResolvedClass} (hnames : ∀ m ∈ c.methods, m.name ≠ [])
    {name : Bytes} (h : name ∈ methodNames c) : name ∉ fieldNames c := by
  intro hfield
  obtain ⟨f, hf⟩ := exists_mem_zip (length_fieldNamesFrom _ _).le hfield
  obtain ⟨hfree, n, hcandidate⟩ := fieldNamesFrom_free hf
  obtain ⟨m, hm⟩ := exists_mem_zip (length_methodNamesFrom [] c.methods).le h
  obtain ⟨k, -, rfl⟩ := methodNamesFrom_numbered hm
  have hmem : m ∈ c.methods := (List.of_mem_zip hm).1
  by_cases hk : k = 0
  · rw [hk, numbered_zero] at hfree
    exact hfree (List.mem_map_of_mem hmem)
  · rw [numbered_of_ne_zero _ hk] at hcandidate
    exact fieldCandidate_ne_numberTail f.name (hnames m hmem) n k hcandidate.symm

end Header

-- ---------------------------------------------------------------------------
-- Types of parameters
-- ---------------------------------------------------------------------------

/-- A class of this name is told from all others by its qualified name. -/
def Clear (className : Bytes) : Prop :=
  Utf8.isValid className = true ∧ className.head? ≠ some Ascii.slash

theorem qualifiedName_inj {name other : Bytes} (hname : Clear name) (hother : Clear other)
    (heq : qualifiedName name = qualifiedName other) : name = other := by
  rw [qualifiedName_eq hname.2, qualifiedName_eq hother.2] at heq
  refine Text.splitOn_injective Ascii.slash (scopePath_injOn ?_ ?_ heq)
  · exact fun part => isValid_of_mem_splitOn hname.1
  · exact fun part => isValid_of_mem_splitOn hother.1

namespace TypeRef

def spaced (element : Bytes) : Bytes :=
  (if element.head? = some Ascii.colon then text " " else []) ++ element

def cppType : FieldType → Bytes
  | .primitive type => primitiveName type
  | .object className => qualifiedName className ++ text "*"
  | .array component =>
    text "::jaot::JArray<" ++ (spaced (cppType component) ++ (text ">" ++ text "*"))

theorem written_ofField_eq {type : FieldType} {t : TypeRef} (h : ofField type = .ok t) :
    t.written = cppType type := by
  induction type generalizing t with
  | primitive type => rw [(make_ok h).1, written_plain, cppType]
  | object className => rw [(make_ok h).1, written_pointer, cppType]
  | array component ih =>
    simp only [ofField, Result.bind_ok_iff] at h
    obtain ⟨element, helement, hmake⟩ := h
    rw [(make_ok hmake).1, written_pointer, ih helement, cppType, spaced]
    simp only [List.append_assoc]

theorem primitiveName_injective : Function.Injective primitiveName := by
  intro type other h
  cases type <;> cases other <;> first | rfl | exact absurd h (by decide)

theorem head?_cppType_primitive (type : Primitive) :
    (cppType (.primitive type)).head? ≠ some Ascii.colon ∧
      (cppType (.primitive type)).head? ≠ some Ascii.blank := by
  cases type <;> decide

theorem head?_cppType_object (className : Bytes) :
    (cppType (.object className)).head? = some Ascii.colon := by
  rw [cppType, List.head?_append, head?_qualifiedName]
  rfl

theorem head?_cppType_array (component : FieldType) :
    (cppType (.array component)).head? = some Ascii.colon := by
  rw [cppType, show text "::jaot::JArray<" = Ascii.colon :: text ":jaot::JArray<" by decide]
  rfl

theorem cppType_object_ne_array (className : Bytes) (component : FieldType) :
    cppType (.object className) ≠ cppType (.array component) := by
  intro h
  have hbracket : (60 : UInt8) ∈ cppType (.array component) :=
    List.mem_append_left _ (by decide)
  rw [← h, cppType, List.mem_append] at hbracket
  rcases hbracket with hname | hstar
  · exact absurd (isNameByte_of_mem_qualifiedName hname) (by decide)
  · exact absurd hstar (by decide)

/-- No type starts with a blank, so the one before an element is no part of it. -/
theorem spaced_cppType_inj {type other : FieldType}
    (h : spaced (cppType type) = spaced (cppType other)) : cppType type = cppType other := by
  have hblank : ∀ (type : FieldType) (s : Bytes), cppType type ≠ text " " ++ s := by
    intro type s heq
    have hhead : (cppType type).head? = some Ascii.blank := by
      rw [heq, show text " " = [Ascii.blank] by decide]
      rfl
    cases type with
    | primitive type => exact (head?_cppType_primitive type).2 hhead
    | object className => cases hhead.symm.trans (head?_cppType_object className)
    | array component => cases hhead.symm.trans (head?_cppType_array component)
  unfold spaced at h
  split_ifs at h
  · exact List.append_cancel_left h
  · exact absurd h.symm (hblank other _)
  · exact absurd h (hblank type _)
  · exact h

/-- Types of clear class names differ in their text. -/
theorem cppType_inj {type other : FieldType} (htype : ∀ name ∈ type.className?, Clear name)
    (hother : ∀ name ∈ other.className?, Clear name) (heq : cppType type = cppType other) :
    type = other := by
  have hhead := congrArg List.head? heq
  induction type generalizing other with
  | primitive type =>
    have hnone := (head?_cppType_primitive type).1
    cases other with
    | primitive other => rw [primitiveName_injective heq]
    | object className => exact absurd (hhead.trans (head?_cppType_object _)) hnone
    | array component => exact absurd (hhead.trans (head?_cppType_array _)) hnone
  | object className =>
    rw [head?_cppType_object] at hhead
    cases other with
    | primitive other => exact absurd hhead.symm (head?_cppType_primitive other).1
    | object name =>
      rw [qualifiedName_inj (htype _ rfl) (hother _ rfl) (List.append_cancel_right heq)]
    | array component => exact absurd heq (cppType_object_ne_array className component)
  | array component ih =>
    rw [head?_cppType_array] at hhead
    cases other with
    | primitive other => exact absurd hhead.symm (head?_cppType_primitive other).1
    | object name => exact absurd heq.symm (cppType_object_ne_array name component)
    | array other =>
      have helement := spaced_cppType_inj (List.append_cancel_right (List.append_cancel_left heq))
      rw [@ih other htype hother helement (congrArg List.head? helement)]

theorem map_cppType_inj {types others : List FieldType}
    (htypes : ∀ type ∈ types, ∀ name ∈ type.className?, Clear name)
    (hothers : ∀ type ∈ others, ∀ name ∈ type.className?, Clear name)
    (heq : types.map cppType = others.map cppType) : types = others := by
  induction types generalizing others with
  | nil => exact (List.map_eq_nil_iff.mp heq.symm).symm
  | cons type types ih =>
    cases others with
    | nil => cases heq
    | cons other others =>
      rw [List.forall_mem_cons] at htypes hothers
      obtain ⟨hfirst, hrest⟩ := List.cons.inj heq
      rw [cppType_inj htypes.1 hothers.1 hfirst, ih htypes.2 hothers.2 hrest]

end TypeRef

-- ---------------------------------------------------------------------------
-- Members of a definition
-- ---------------------------------------------------------------------------

/-- A member as other members see it: a function has overloads, a field has none. -/
inductive Member where
  | field (name : Bytes)
  | function (name : Bytes) (types : List Bytes)
  deriving DecidableEq, Repr

namespace Node

mutual

def memberDecls : Node → List Member
  | .file _ children | .scope _ children | .struct _ _ children | .access _ children
  | .block children | .group children | .statement children => memberDeclsOf children
  | .field _ name _ _ => [.field name]
  | .function _ name params _ _ _ => [.function name (params.map (·.type.written))]
  | _ => []

def memberDeclsOf : List Node → List Member
  | [] => []
  | node :: rest => node.memberDecls ++ memberDeclsOf rest

end

theorem memberDeclsOf_eq_flatMap (nodes : List Node) :
    memberDeclsOf nodes = nodes.flatMap memberDecls := by
  induction nodes with
  | nil => simp [memberDeclsOf]
  | cons node nodes ih => rw [memberDeclsOf, ih, List.flatMap_cons]

theorem memberDecls_comment (content : Bytes) : (comment content).memberDecls = [] := by
  simp [memberDecls]

end Node

namespace Header

open Node

variable {options : HeaderOptions} {c : ResolvedClass}

theorem memberDecls_field {f : ResolvedField} {name : Bytes} {nodes : List Node}
    (h : field f name = .ok nodes) : nodes.flatMap memberDecls = [.field name] := by
  simp only [field, Result.bind_ok_iff] at h
  obtain ⟨_, _, type, _, plain, hplain, h⟩ := h
  have hplainDecls : plain.memberDecls = [.field name] := by
    rw [makeField_ok hplain, memberDecls]
  split at h
  · cases h
    rw [List.flatMap_singleton, hplainDecls]
  · cases h
    rw [List.flatMap_cons, memberDecls_comment, List.flatMap_singleton, hplainDecls]
    rfl
  · simp only [Result.bind_ok_iff, Result.pure_ok_iff] at h
    obtain ⟨init, _, node, hnode, rfl⟩ := h
    rw [List.flatMap_singleton, makeField_ok hnode, memberDecls]

theorem written_params {function : Bytes} {args : List FieldType} {names : List Bytes}
    {types : List TypeRef} {params : List Param} (hlength : names.length = args.length)
    (htypes : args.mapM TypeRef.ofField = .ok types)
    (hparams : ((types.map some).zip names).mapM
      (fun (type, param) => makeParam function type param) = .ok params) :
    params.map (·.type.written) = args.map TypeRef.cppType := by
  rw [Result.mapM_ok_iff] at htypes hparams
  induction htypes generalizing names params with
  | nil =>
    cases hparams
    rfl
  | @cons arg type args types htype _ ih =>
    cases names with
    | nil => cases hlength
    | cons name names =>
      rw [List.map_cons, List.zip_cons_cons, List.forall₂_cons_left_iff] at hparams
      obtain ⟨param, rest, hparam, hrest, rfl⟩ := hparams
      rw [List.map_cons, List.map_cons, makeParam_ok hparam, TypeRef.written_ofField_eq htype,
        ih (Nat.succ.inj hlength) hrest]

theorem memberDecls_method {inInterface : Bool} {m : ResolvedMethod} {name : Bytes} {node : Node}
    (h : method options inInterface m name = .ok node) :
    node.memberDecls = [.function name (m.type.args.map TypeRef.cppType)] := by
  simp only [method, Result.bind_ok_iff] at h
  obtain ⟨_, _, result, _, types, htypes, body, _, h⟩ := h
  obtain ⟨params, hparams, rfl⟩ := makeFunction_ok h
  rw [memberDecls, written_params (length_paramNames m) htypes hparams]

def functions (c : ResolvedClass) : List (Bytes × List Bytes) :=
  (c.methods.zip (methodNames c)).map fun (m, name) => (name, m.type.args.map TypeRef.cppType)

theorem memberDecls_members {nodes : List Node} (h : members options c = .ok nodes) :
    nodes.flatMap memberDecls =
      (fieldNames c).map .field ++ (functions c).map fun f => .function f.1 f.2 := by
  simp only [members, Result.bind_ok_iff, Result.pure_ok_iff] at h
  obtain ⟨fields, hfields, methods, hmethods, rfl⟩ := h
  have hlength : (fieldNames c).length ≤ c.fields.length := (length_fieldNamesFrom _ _).le
  have hfieldDecls : fields.flatten.flatMap memberDecls = (fieldNames c).map .field := by
    have hgathered : fields.flatMap (List.flatMap memberDecls) =
        ((c.fields.zip (fieldNames c)).map Prod.snd).flatMap fun name => [.field name] := by
      rw [List.flatMap_map]
      exact Result.flatMap_of_mapM hfields fun _ _ => memberDecls_field
    rw [List.flatten_eq_flatMap, List.flatMap_assoc]
    exact hgathered.trans (by rw [List.map_snd_zip hlength]; exact List.flatMap_pure_eq_map ..)
  have hmethodDecls : methods.flatMap memberDecls =
      (functions c).map fun f => .function f.1 f.2 := by
    rw [Result.flatMap_of_mapM hmethods fun a _ h => memberDecls_method
      (Result.mapError_ok_iff.mp h), functions, List.map_map]
    exact List.flatMap_pure_eq_map ..
  rw [List.flatMap_append, hfieldDecls, hmethodDecls]

theorem memberDecls_definition {node : Node} (h : definition options c = .ok node) :
    node.memberDecls =
      (fieldNames c).map .field ++ (functions c).map fun f => .function f.1 f.2 := by
  simp only [definition, Result.bind_ok_iff, Result.pure_ok_iff] at h
  obtain ⟨path, _, nodes, hnodes, struct, hstruct, rfl⟩ := h
  have horigin : (if c.sourceFile = [] then []
      else [Node.comment (c.name ++ text " (" ++ c.sourceFile ++ text ")")]).flatMap
        memberDecls = [] := by
    split_ifs
    · rfl
    · rw [List.flatMap_singleton, memberDecls_comment]
  have hpublic : ((if nodes.isEmpty then []
      else [some (Node.access (text "public") nodes)]).filterMap id).flatMap memberDecls =
        nodes.flatMap memberDecls := by
    split_ifs with hempty
    · rw [List.isEmpty_iff.mp hempty]
      rfl
    · rw [← memberDeclsOf_eq_flatMap nodes]
      simp [memberDecls]
  rw [makeStruct_ok hstruct, memberDecls, memberDeclsOf_eq_flatMap, List.flatMap_append, horigin,
    List.flatMap_singleton, memberDecls, memberDeclsOf_eq_flatMap, hpublic,
    memberDecls_members hnodes]
  rfl

theorem nodup_functions (hnames : ∀ m ∈ c.methods, m.name ≠ [])
    (hclasses : ∀ m ∈ c.methods, ∀ type ∈ m.type.args, ∀ name ∈ type.className?, Clear name) :
    (functions c).Nodup := by
  refine List.pairwise_map.mpr ((methodNamesFrom_pairwise [] hnames).imp_of_mem ?_)
  rintro ⟨m, name⟩ ⟨other, _⟩ hm hother hdiffer heq
  obtain ⟨rfl, htypes⟩ := Prod.mk.inj heq
  exact hdiffer rfl (TypeRef.map_cppType_inj (hclasses m (List.of_mem_zip hm).1)
    (hclasses other (List.of_mem_zip hother).1) htypes)

theorem fst_mem_methodNames {f : Bytes × List Bytes} (h : f ∈ functions c) :
    f.1 ∈ methodNames c := by
  obtain ⟨⟨m, name⟩, hpair, rfl⟩ := List.mem_map.mp h
  exact (List.of_mem_zip hpair).2

theorem length_functions (c : ResolvedClass) : (functions c).length = c.methods.length := by
  rw [functions, List.length_map, List.length_zip, methodNames, length_methodNamesFrom,
    Nat.min_self]

/-- A struct declares one member for each field and each method of its class. Two functions
differ in their identifiers or their types of parameters, two fields in their identifiers, and a
field and a function have different identifiers. The search for the identifier of a field always
ends, with the first candidate that no member has yet. -/
theorem definition_members_distinct {options : HeaderOptions} {c : ResolvedClass} {node : Node}
    (h : definition options c = .ok node) (hnames : ∀ m ∈ c.methods, m.name ≠ [])
    (hclasses : ∀ m ∈ c.methods, ∀ type ∈ m.type.args, ∀ name ∈ type.className?,
      Utf8.isValid name = true ∧ name.head? ≠ some Ascii.slash) :
    (∃ (fields : List Bytes) (functions : List (Bytes × List Bytes)),
      node.memberDecls = fields.map .field ++ functions.map (fun f => .function f.1 f.2) ∧
      fields.length = c.fields.length ∧ functions.length = c.methods.length ∧
      functions.Nodup ∧ fields.Nodup ∧ ∀ f ∈ functions, f.1 ∉ fields) ∧
    ∀ taken name, ∃ n, freshFieldName taken name = fieldCandidate name n ∧
      fieldCandidate name n ∉ taken ∧ ∀ k < n, fieldCandidate name k ∈ taken := by
  refine ⟨⟨fieldNames c, functions c, memberDecls_definition h, ?_, length_functions c, ?_, ?_, ?_⟩,
    exists_freshFieldName⟩
  · exact length_fieldNamesFrom _ _
  · exact nodup_functions hnames hclasses
  · exact nodup_fieldNamesFrom _ _
  · exact fun f hf => notMem_fieldNames hnames (fst_mem_methodNames hf)

/-- A class with two fields and a method of one name, which is overloaded by its result and its
arguments, and with members whose names look like those of renamed members. -/
def crowded : ResolvedClass where
  name := text "a/B"
  superName := text "java/lang/Object"
  sourceFile := []
  interfaces := []
  fields := [⟨text "run", .primitive .int, 0, []⟩, ⟨text "run", .primitive .long, 0, []⟩,
    ⟨text "run_F", .primitive .int, 0, []⟩]
  methods := [⟨text "run", ⟨[], none⟩, AccessFlags.isAbstract, []⟩,
    ⟨text "run", ⟨[], some (.primitive .int)⟩, AccessFlags.isAbstract, []⟩,
    ⟨text "run", ⟨[.array (.array (.object (text "p/Q")))], none⟩, AccessFlags.isAbstract, []⟩,
    ⟨text "run_1", ⟨[], none⟩, AccessFlags.isAbstract, []⟩]
  attributes := []
  access := AccessFlags.isAbstract
  major := 52
  minor := 0

theorem definition_members_distinct_crowded :
    ∃ node, definition {} crowded = .ok node ∧ (∀ m ∈ crowded.methods, m.name ≠ []) ∧
      (∀ m ∈ crowded.methods, ∀ type ∈ m.type.args, ∀ name ∈ type.className?,
        Utf8.isValid name = true ∧ name.head? ≠ some Ascii.slash) ∧
      node.memberDecls = [.field (text "run_F"), .field (text "run_F2"), .field (text "run__F"),
        .function (text "run") [], .function (text "run_1") [],
        .function (text "run") [text "::jaot::JArray< ::jaot::JArray< ::p::Q*>*>*"],
        .function (text "run__1") []] ∧
      (∃ (fields : List Bytes) (functions : List (Bytes × List Bytes)),
        node.memberDecls = fields.map .field ++ functions.map (fun f => .function f.1 f.2) ∧
        fields.length = crowded.fields.length ∧ functions.length = crowded.methods.length ∧
        functions.Nodup ∧ fields.Nodup ∧ ∀ f ∈ functions, f.1 ∉ fields) ∧
      ∀ taken name, ∃ n, freshFieldName taken name = fieldCandidate name n ∧
        fieldCandidate name n ∉ taken ∧ ∀ k < n, fieldCandidate name k ∈ taken := by
  have hdecls : (definition {} crowded).map Node.memberDecls =
      .ok [.field (text "run_F"), .field (text "run_F2"), .field (text "run__F"),
        .function (text "run") [], .function (text "run_1") [],
        .function (text "run") [text "::jaot::JArray< ::jaot::JArray< ::p::Q*>*>*"],
        .function (text "run__1") []] := by
    decide +kernel
  have hnames : ∀ m ∈ crowded.methods, m.name ≠ [] := by decide +kernel
  have hclasses : ∀ m ∈ crowded.methods, ∀ type ∈ m.type.args, ∀ name ∈ type.className?,
      Utf8.isValid name = true ∧ name.head? ≠ some Ascii.slash := by
    decide +kernel
  cases hnode : definition {} crowded with
  | error e =>
    rw [hnode] at hdecls
    cases hdecls
  | ok node =>
    rw [hnode] at hdecls
    exact ⟨node, rfl, hnames, hclasses, Except.ok.inj hdecls,
      definition_members_distinct hnode hnames hclasses⟩

end Header
end ClassHeader.Cpp
