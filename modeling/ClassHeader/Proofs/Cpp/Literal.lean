import ClassHeader.Cpp.Node
import ClassHeader.Proofs.Result
import ClassHeader.Proofs.Text.Netstring

/-!
# Literals read back

A reader of the bodies of string literals, by the rules of the language they are
written in: an octal escape takes up to three digits, `\x` takes as many digits as
follow it, and the name of a character takes exactly four or eight. The body written
for a string is read as its characters again, one element for each of them, and
where one element ends does not depend on what stands behind it.

The written form of a value of any type is a part of one line.
-/

namespace ClassHeader.Cpp.Literal

-- ---------------------------------------------------------------------------
-- Elements of a body
-- ---------------------------------------------------------------------------

/-- The value of a digit of either case, in bases up to sixteen. -/
def digitOf? (base : Nat) (b : UInt8) : Option Nat :=
  let value :=
    if 48 ≤ b ∧ b ≤ 57 then b.toNat - 48
    else if 65 ≤ b ∧ b ≤ 70 then b.toNat - 55
    else if 97 ≤ b ∧ b ≤ 102 then b.toNat - 87
    else base
  if value < base then some value else none

def isDigitOf (base : Nat) (b : UInt8) : Bool := (digitOf? base b).isSome

def numberOf (base : Nat) (digits : Bytes) : Nat :=
  (digits.filterMap (digitOf? base)).foldl (fun n d => base * n + d) 0

inductive Element where
  | plain (c : Char)
  | simple (mark : UInt8)
  | octal (digits : Bytes)
  | hex (digits : Bytes)
  /-- A universal character name. -/
  | named (digits : Bytes)
  deriving DecidableEq, Repr

def simpleEscapes : List (UInt8 × Nat) :=
  [(39, 39), (34, 34), (63, 63), (92, 92), (97, 7), (98, 8), (102, 12), (110, 10), (114, 13),
    (116, 9), (118, 11)]

/-- The code of an element; surrogates have no names. -/
def Element.code? : Element → Option Nat
  | .plain c => some c.toNat
  | .simple mark => simpleEscapes.lookup mark
  | .octal digits => some (numberOf 8 digits)
  | .hex digits => some (numberOf 16 digits)
  | .named digits =>
    if (numberOf 16 digits).isValidChar then some (numberOf 16 digits) else none

def name? (width : Nat) (s : Bytes) : Option (Element × Bytes) :=
  if width ≤ s.length ∧ (s.take width).all (isDigitOf 16) then
    some (.named (s.take width), s.drop width)
  else none

/-- The escape whose backslash stands in front of the text. -/
def escape? : Bytes → Option (Element × Bytes)
  | [] => none
  | mark :: s =>
    if isDigitOf 8 mark then
      let others := (s.take 2).takeWhile (isDigitOf 8)
      some (.octal (mark :: others), s.drop others.length)
    else if mark = 120 then
      let digits := s.takeWhile (isDigitOf 16)
      if digits = [] then none else some (.hex digits, s.drop digits.length)
    else if mark = 117 then name? 4 s
    else if mark = 85 then name? 8 s
    else some (.simple mark, s)

def first? : Bytes → Option (Element × Bytes)
  | [] => none
  | b :: s =>
    if b = Ascii.newline then none
    else if b = Ascii.backslash then escape? s
    else (Utf8.first? (b :: s)).map fun (c, rest) => (.plain c, rest)

theorem name?_length {width : Nat} {s rest : Bytes} {e : Element}
    (h : name? width s = some (e, rest)) : rest.length ≤ s.length := by
  rw [name?] at h
  split at h
  · cases h
    simp
  · cases h

theorem escape?_length {s rest : Bytes} {e : Element} (h : escape? s = some (e, rest)) :
    rest.length ≤ s.length := by
  unfold escape? at h
  split at h
  · cases h
  · simp only at h
    split_ifs at h
    · cases h
      simp only [List.length_drop, List.length_cons]
      omega
    · cases h
      simp only [List.length_drop, List.length_cons]
      omega
    · exact (name?_length h).trans (Nat.le_succ _)
    · exact (name?_length h).trans (Nat.le_succ _)
    · cases h
      exact Nat.le_succ _

theorem first?_length {s rest : Bytes} {e : Element} (h : first? s = some (e, rest)) :
    rest.length < s.length := by
  unfold first? at h
  split at h
  · cases h
  · split_ifs at h
    · exact Nat.lt_succ_of_le (escape?_length h)
    · obtain ⟨⟨c, behind⟩, hchar, heq⟩ := Option.map_eq_some_iff.mp h
      cases heq
      exact Utf8.first?_length hchar

def elements? (s : Bytes) : Option (List Element) :=
  match _h : first? s with
  | some (e, rest) => (elements? rest).map (e :: ·)
  | none => if s = [] then some [] else none
termination_by s.length
decreasing_by exact first?_length _h

theorem elements?_nil : elements? [] = some [] := by
  rw [elements?]
  rfl

theorem elements?_of_first? {s rest : Bytes} {e : Element} (h : first? s = some (e, rest)) :
    elements? s = (elements? rest).map (e :: ·) := by
  rw [elements?.eq_def]
  split
  · rename_i h'
    cases h.symm.trans h'
    rfl
  · rename_i h'
    cases h.symm.trans h'

-- ---------------------------------------------------------------------------
-- Each kind of element is read off its spelling
-- ---------------------------------------------------------------------------

def Shows (shown : Bytes) (e : Element) : Prop :=
  ∀ rest, first? (shown ++ rest) = some (e, rest)

theorem Shows.elements? {shown : Bytes} {e : Element} (h : Shows shown e) (rest : Bytes) :
    elements? (shown ++ rest) = (elements? rest).map (e :: ·) :=
  elements?_of_first? (h rest)

theorem shows_plain {b : UInt8} (hascii : b.toNat < 128) (hnewline : b ≠ Ascii.newline)
    (hbackslash : b ≠ Ascii.backslash) : Shows [b] (.plain (Char.ofNat b.toNat)) := by
  intro rest
  rw [List.singleton_append, first?, if_neg hnewline, if_neg hbackslash,
    ← List.singleton_append, (Utf8.Spells.one hascii).first? rest]
  rfl

theorem shows_simple {mark : UInt8} (hoctal : isDigitOf 8 mark = false)
    (hmark : mark ∉ ([120, 117, 85] : List UInt8)) :
    Shows [Ascii.backslash, mark] (.simple mark) := by
  intro rest
  simp only [List.mem_cons, List.not_mem_nil, or_false, not_or] at hmark
  rw [List.cons_append, List.singleton_append, first?, if_neg (by decide), if_pos rfl, escape?,
    if_neg (by simp [hoctal]), if_neg hmark.1, if_neg hmark.2.1, if_neg hmark.2.2]

/-- Three octal digits are a whole escape: a fourth digit behind them is not taken in. -/
theorem shows_octal {digits : Bytes} (hlength : digits.length = 3)
    (hdigits : digits.all (isDigitOf 8) = true) :
    Shows (Ascii.backslash :: digits) (.octal digits) := by
  intro rest
  obtain ⟨a, b, c, rfl⟩ := List.length_eq_three.mp hlength
  simp only [List.all_cons, List.all_nil, Bool.and_eq_true, and_true] at hdigits
  obtain ⟨ha, hb, hc⟩ := hdigits
  rw [List.cons_append, first?, if_neg (by decide), if_pos rfl, List.cons_append, escape?,
    if_pos ha]
  simp [List.takeWhile, hb, hc]

example : first? (text "\\0011") = some (.octal (text "001"), text "1") := by decide +kernel

theorem name?_append {digits : Bytes} (hdigits : digits.all (isDigitOf 16) = true) (rest : Bytes) :
    name? digits.length (digits ++ rest) = some (.named digits, rest) := by
  rw [name?, List.take_left, List.drop_left, if_pos ⟨by simp, hdigits⟩]

theorem shows_shortName {digits : Bytes} (hlength : digits.length = 4)
    (hdigits : digits.all (isDigitOf 16) = true) :
    Shows (text "\\u" ++ digits) (.named digits) := by
  intro rest
  have hname := name?_append hdigits rest
  rw [hlength] at hname
  rw [show text "\\u" = [Ascii.backslash, 117] by decide, List.append_assoc]
  exact hname

theorem shows_longName {digits : Bytes} (hlength : digits.length = 8)
    (hdigits : digits.all (isDigitOf 16) = true) :
    Shows (text "\\U" ++ digits) (.named digits) := by
  intro rest
  have hname := name?_append hdigits rest
  rw [hlength] at hname
  rw [show text "\\U" = [Ascii.backslash, 85] by decide, List.append_assoc]
  exact hname

-- ---------------------------------------------------------------------------
-- Digits as they are written
-- ---------------------------------------------------------------------------

theorem digitOf?_of_isHexDigit {b : UInt8} (h : Text.isHexDigit b = true) :
    digitOf? 16 b = some (Text.digitValue b) := by
  simp only [Text.isHexDigit, Bool.or_eq_true, Bool.and_eq_true, decide_eq_true_eq,
    UInt8.le_iff_toNat_le, UInt8.reduceToNat] at h
  simp only [digitOf?, Text.digitValue, UInt8.le_iff_toNat_le, UInt8.lt_iff_toNat_lt,
    UInt8.reduceToNat]
  split_ifs <;> first | rfl | omega

theorem all_isDigitOf_hex (width n : Nat) : (Text.hex width n).all (isDigitOf 16) = true := by
  refine List.all_eq_true.mpr fun b hb => ?_
  rw [isDigitOf, digitOf?_of_isHexDigit (Text.isHexDigit_of_mem_hex hb), Option.isSome_some]

theorem numberOf_hex (width n : Nat) : numberOf 16 (Text.hex width n) = n := by
  have hvalues : (Text.hex width n).filterMap (digitOf? 16) =
      (Text.hex width n).map Text.digitValue := by
    rw [← List.filterMap_eq_map]
    exact List.filterMap_congr fun b hb => digitOf?_of_isHexDigit (Text.isHexDigit_of_mem_hex hb)
  rw [numberOf, hvalues, List.foldl_map]
  exact Text.hexValue_hex width n

theorem digits_octal : ∀ n < 128, (Text.digits 8 3 n).length = 3 ∧
    (Text.digits 8 3 n).all (isDigitOf 8) = true ∧ numberOf 8 (Text.digits 8 3 n) = n ∧
    Ascii.newline ∉ Text.digits 8 3 n := by
  decide +kernel

-- ---------------------------------------------------------------------------
-- Characters
-- ---------------------------------------------------------------------------

theorem shows_escapeLiteral (c : Char) :
    ∃ e, Shows (escapeLiteral '"' c.toNat) e ∧ e.code? = some c.toNat ∧ e ≠ .plain '"' := by
  have hvalid : c.toNat.isValidChar := c.valid
  have hbound : c.toNat < 16 ^ 8 := c.val.toNat_lt
  rw [escapeLiteral]
  split_ifs with hbackslash hnewline hreturn htab hquote hcontrol hascii hlong
  · exact ⟨.simple 92, shows_simple (by decide) (by decide), by rw [hbackslash]; rfl, by simp⟩
  · exact ⟨.simple 110, shows_simple (by decide) (by decide), by rw [hnewline]; rfl, by simp⟩
  · exact ⟨.simple 114, shows_simple (by decide) (by decide), by rw [hreturn]; rfl, by simp⟩
  · exact ⟨.simple 116, shows_simple (by decide) (by decide), by rw [htab]; rfl, by simp⟩
  · exact ⟨.simple 34, shows_simple (by decide) (by decide), by rw [hquote]; rfl, by simp⟩
  · obtain ⟨hlength, hdigits, hnumber, -⟩ := digits_octal c.toNat (by omega)
    exact ⟨.octal (Text.digits 8 3 c.toNat), shows_octal hlength hdigits,
      by rw [Element.code?, hnumber], by simp⟩
  · have hbyte : (UInt8.ofNat c.toNat).toNat = c.toNat := Utf8.toNat_ofNat_of_lt (by omega)
    have hne {b : UInt8} (h : c.toNat ≠ b.toNat) : UInt8.ofNat c.toNat ≠ b := by
      rintro rfl
      exact h hbyte.symm
    have hshows := shows_plain (b := .ofNat c.toNat) (by rw [hbyte]; exact hascii) (hne hnewline)
      (hne hbackslash)
    rw [hbyte, Char.ofNat_toNat] at hshows
    refine ⟨_, hshows, rfl, fun heq => hquote ?_⟩
    cases heq
    rfl
  · exact ⟨_, shows_longName (Text.length_hex (by decide) hbound) (all_isDigitOf_hex _ _),
      by rw [Element.code?, numberOf_hex, if_pos hvalid], by simp⟩
  · exact ⟨_, shows_shortName (Text.length_hex (by decide) (by omega)) (all_isDigitOf_hex _ _),
      by rw [Element.code?, numberOf_hex, if_pos hvalid], by simp⟩

theorem newline_notMem_hex (width n : Nat) : Ascii.newline ∉ Text.hex width n :=
  fun h => absurd (Text.isHexDigit_of_mem_hex h) (by decide)

theorem newline_notMem_escapeLiteral {mark : Char} (hmark : Ascii.newline ∉ Text.ofChars [mark])
    (code : Nat) : Ascii.newline ∉ escapeLiteral mark code := by
  rw [escapeLiteral]
  split_ifs with hbackslash hnewline hreturn htab hquote hcontrol hascii hlong
  · decide
  · decide
  · decide
  · decide
  · exact List.not_mem_append (by decide) hmark
  · exact List.not_mem_append (by decide) (digits_octal code (by omega)).2.2.2
  · intro hmem
    have hbyte := congrArg UInt8.toNat (List.mem_singleton.mp hmem)
    rw [Utf8.toNat_ofNat_of_lt (by omega)] at hbyte
    exact hnewline hbyte.symm
  · exact List.not_mem_append (by decide) (newline_notMem_hex _ _)
  · exact List.not_mem_append (by decide) (newline_notMem_hex _ _)

-- ---------------------------------------------------------------------------
-- Strings
-- ---------------------------------------------------------------------------

def bodyOf (chars : List Char) : Bytes := chars.flatMap fun c => escapeLiteral '"' c.toNat

theorem stringText_ofChars (chars : List Char) :
    stringText (Text.ofChars chars) = text "u\"" ++ bodyOf chars ++ text "\"" := by
  rw [stringText, Utf8.lossyChars_ofChars, bodyOf]

theorem newline_notMem_bodyOf (chars : List Char) : Ascii.newline ∉ bodyOf chars := by
  intro hmem
  obtain ⟨c, -, hc⟩ := List.mem_flatMap.mp hmem
  exact newline_notMem_escapeLiteral (by decide) c.toNat hc

theorem Element.isValidChar_of_code? {digits : Bytes} {code : Nat}
    (h : (Element.named digits).code? = some code) : (numberOf 16 digits).isValidChar := by
  rw [Element.code?] at h
  split at h
  · assumption
  · cases h

theorem elements?_bodyOf (chars : List Char) :
    ∃ elements : List Element,
      (∀ rest, elements? (bodyOf chars ++ rest) = (elements? rest).map (elements ++ ·)) ∧
      elements.mapM Element.code? = some (chars.map Char.toNat) ∧
      .plain '"' ∉ elements ∧
      ∀ digits, .named digits ∈ elements → (numberOf 16 digits).isValidChar := by
  induction chars with
  | nil => exact ⟨[], fun rest => Option.map_id'.symm, rfl, List.not_mem_nil, by simp⟩
  | cons c chars ih =>
    obtain ⟨elements, hreads, hcodes, hquotes, hnamed⟩ := ih
    obtain ⟨e, hshows, hcode, hquote⟩ := shows_escapeLiteral c
    refine ⟨e :: elements, fun rest => ?_, ?_, ?_, fun digits hdigits => ?_⟩
    · rw [bodyOf, List.flatMap_cons, List.append_assoc, hshows.elements?, ← bodyOf, hreads,
        Option.map_map]
      rfl
    · rw [List.mapM_cons, hcode, hcodes]
      rfl
    · exact List.not_mem_cons_of_ne_of_not_mem (Ne.symm hquote) hquotes
    · rcases List.mem_cons.mp hdigits with rfl | hmem
      · exact Element.isValidChar_of_code? hcode
      · exact hnamed digits hmem

/-- The literal written for a string is read as the characters of the string. Its body ends at
the closing quote: no element of it is a quote, and the elements of what stands behind the body
are the same as without it. -/
theorem string_written_decodes {s : Bytes} {chars : List Char} (h : Utf8.chars? s = some chars) :
    ∃ (body : Bytes) (elements : List Element),
      Node.makeLiteral (.string s) = .ok (.literal (text "u\"" ++ body ++ text "\"")) ∧
      Ascii.newline ∉ body ∧
      elements? body = some elements ∧
      elements.mapM Element.code? = some (chars.map Char.toNat) ∧
      .plain '"' ∉ elements ∧
      (∀ digits, .named digits ∈ elements →
        ¬ (0xD800 ≤ numberOf 16 digits ∧ numberOf 16 digits ≤ 0xDFFF)) ∧
      ∀ rest, elements? (body ++ rest) = (elements? rest).map (elements ++ ·) := by
  obtain ⟨elements, hreads, hcodes, hquotes, hnamed⟩ := elements?_bodyOf chars
  refine ⟨bodyOf chars, elements, ?_, newline_notMem_bodyOf chars, ?_, hcodes, hquotes,
    fun digits hdigits => ?_, hreads⟩
  · rw [← stringText_ofChars, ← Utf8.chars?_eq_some_iff.mp h]
    rfl
  · have hall := hreads []
    rwa [List.append_nil, elements?_nil, Option.map_some, List.append_nil] at hall
  · have hvalid := hnamed digits hdigits
    rw [Nat.isValidChar] at hvalid
    omega

/-- A digit behind an octal escape, a letter behind a name and a character behind two names. -/
theorem string_written_decodes_mixed :
    Utf8.chars? (text "\x011\"\\\n\u00e9f😀0") =
      some ['\x01', '1', '"', '\\', '\n', '\u00e9', 'f', '😀', '0'] ∧
    ∃ (body : Bytes) (elements : List Element),
      Node.makeLiteral (.string (text "\x011\"\\\n\u00e9f😀0")) =
        .ok (.literal (text "u\"" ++ body ++ text "\"")) ∧
      elements? body = some elements ∧
      elements.mapM Element.code? = some [1, 49, 34, 92, 10, 0xE9, 102, 0x1F600, 48] ∧
      ∀ rest, elements? (body ++ rest) = (elements? rest).map (elements ++ ·) := by
  have hchars : Utf8.chars? (text "\x011\"\\\n\u00e9f😀0") =
      some ['\x01', '1', '"', '\\', '\n', '\u00e9', 'f', '😀', '0'] :=
    Utf8.chars?_eq_some_iff.mpr rfl
  obtain ⟨body, elements, hmade, -, helements, hcodes, -, -, hreads⟩ :=
    string_written_decodes hchars
  exact ⟨hchars, body, elements, hmade, helements, hcodes, hreads⟩

-- ---------------------------------------------------------------------------
-- Values are written on one line
-- ---------------------------------------------------------------------------

theorem newline_notMem_ofNat (n : Nat) : Ascii.newline ∉ Text.ofNat n :=
  fun h => absurd (Netstring.isDigit_of_mem_ofNat h) (by decide)

theorem newline_notMem_ofInt (n : Int) : Ascii.newline ∉ Text.ofInt n := by
  cases n with
  | ofNat n => exact newline_notMem_ofNat n
  | negSucc n =>
    exact List.not_mem_cons_of_ne_of_not_mem (by decide) (newline_notMem_ofNat (n + 1))

theorem newline_notMem_charText (unit : UInt16) : Ascii.newline ∉ charText unit := by
  have hquote : Ascii.newline ∉ escapeLiteral '\'' unit.toNat :=
    newline_notMem_escapeLiteral (by decide) _
  have hopening : Ascii.newline ∉ text "u'" := by decide
  have hhex : Ascii.newline ∉ text "\\x" := by decide
  have hclosing : Ascii.newline ∉ text "'" := by decide
  rw [charText]
  split_ifs
  · simp only [List.mem_append, not_or]
    exact ⟨⟨hopening, hhex, newline_notMem_hex _ _⟩, hclosing⟩
  · simp only [List.mem_append, not_or]
    exact ⟨⟨hopening, hquote⟩, hclosing⟩

theorem newline_notMem_stringText (s : Bytes) : Ascii.newline ∉ stringText s := by
  have hopening : Ascii.newline ∉ text "u\"" := by decide
  have hclosing : Ascii.newline ∉ text "\"" := by decide
  simp only [stringText, List.mem_append, not_or]
  exact ⟨⟨hopening, newline_notMem_bodyOf _⟩, hclosing⟩

-- Digits of floating-point numbers are below ten, since they are digits of a natural number.

theorem lt_ten_of_mem_shortest {significand : Nat} {exponent : Int} {narrowBelow : Bool} {d : Nat}
    (h : d ∈ (Decimal.shortest significand exponent narrowBelow).digits) : d < 10 := by
  unfold Decimal.shortest at h
  simp only at h
  split at h
  · rw [Decimal.dropTrailingZeros, List.mem_reverse] at h
    have hshown := List.mem_reverse.mp ((List.dropWhile_suffix _).subset h)
    obtain ⟨c, hc, rfl⟩ := List.mem_map.mp hshown
    have hrange := Netstring.toNat_of_mem_toDigits hc
    omega
  · rw [List.mem_singleton.mp h]
    decide

theorem newline_notMem_figures {ds : List Nat} (h : ∀ d ∈ ds, d < 10) :
    Ascii.newline ∉ ds.map fun d => UInt8.ofNat (48 + d) := by
  intro hmem
  obtain ⟨d, hd, hbyte⟩ := List.mem_map.mp hmem
  have hcode := congrArg UInt8.toNat hbyte
  have hsmall := h d hd
  rw [Utf8.toNat_ofNat_of_lt (by omega)] at hcode
  exact absurd hcode (by rw [show Ascii.newline.toNat = 10 from rfl]; omega)

theorem newline_notMem_digits (width n : Nat) : Ascii.newline ∉ Text.digits 10 width n := by
  have hshown : Ascii.newline ∉ Text.ofChars (Nat.toDigits 10 n) := fun h =>
    newline_notMem_ofNat n (List.mem_append_right _ h)
  simp only [Text.digits, List.mem_append, not_or]
  exact ⟨fun h => absurd (List.eq_of_mem_replicate h) (by decide), hshown⟩

theorem newline_notMem_scientific {d : Decimal.Digits} (h : ∀ k ∈ d.digits, k < 10) :
    Ascii.newline ∉ d.scientific := by
  have hfirst := newline_notMem_figures fun k hk => h k (List.mem_of_mem_take (i := 1) hk)
  have hothers := newline_notMem_figures fun k hk => h k (List.mem_of_mem_drop (i := 1) hk)
  have hpoint : Ascii.newline ∉ text "." := by decide
  have hmark : Ascii.newline ∉ text "e" := by decide
  have hsign : Ascii.newline ∉ text (if d.exponent < 0 then "-" else "+") := by
    split_ifs <;> decide
  simp only [Decimal.Digits.scientific, List.mem_append, not_or]
  refine ⟨⟨⟨⟨hfirst, ?_⟩, hmark⟩, hsign⟩, newline_notMem_digits _ _⟩
  split_ifs
  · exact List.not_mem_nil
  · exact List.not_mem_append hpoint hothers

theorem newline_notMem_plain {d : Decimal.Digits} (h : ∀ k ∈ d.digits, k < 10) :
    Ascii.newline ∉ d.plain := by
  have hzeros (n : Nat) : ∀ k ∈ List.replicate n 0, k < 10 := fun k hk => by
    rw [List.eq_of_mem_replicate hk]
    decide
  have hwhole (n m : Nat) : ∀ k ∈ d.digits.take n ++ List.replicate m 0, k < 10 :=
    List.forall_mem_append.mpr ⟨fun k hk => h k (List.mem_of_mem_take hk), hzeros m⟩
  have hpoint : Ascii.newline ∉ text "." := by decide
  have hfraction : Ascii.newline ∉ text "0." := by decide
  simp only [Decimal.Digits.plain]
  split_ifs
  · exact List.not_mem_append hfraction
      (newline_notMem_figures (List.forall_mem_append.mpr ⟨hzeros _, h⟩))
  · rw [List.append_nil]
    exact newline_notMem_figures (hwhole _ _)
  · exact List.not_mem_append (newline_notMem_figures (hwhole _ _)) (List.not_mem_append hpoint
      (newline_notMem_figures fun k hk => h k (List.mem_of_mem_drop hk)))

theorem newline_notMem_render (format : Decimal.BinaryFormat) (bits : Nat) :
    Ascii.newline ∉ format.render numberWords bits := by
  have hsign : Ascii.newline ∉ (if format.isNegative bits then text "-" else []) := by
    split_ifs <;> decide
  have hzero : Ascii.newline ∉ text "0" := by decide
  simp only [Decimal.BinaryFormat.render, Decimal.BinaryFormat.renderWith]
  split
  · decide
  · split_ifs <;> decide
  · exact List.not_mem_append hsign hzero
  · refine List.not_mem_append hsign ?_
    rw [Decimal.Digits.general]
    split_ifs
    · exact newline_notMem_scientific fun k => lt_ten_of_mem_shortest
    · exact newline_notMem_plain fun k => lt_ten_of_mem_shortest

theorem newline_notMem_floatText (format : Decimal.BinaryFormat) {ending : Bytes}
    (h : Ascii.newline ∉ ending) (bits : Nat) :
    Ascii.newline ∉ floatText format ending bits := by
  have hshown := newline_notMem_render format bits
  have hpoint : Ascii.newline ∉ text ".0" := by decide
  simp only [floatText]
  split
  · exact hshown
  · exact hshown
  · simp only [List.mem_append, not_or]
    refine ⟨⟨hshown, ?_⟩, h⟩
    split_ifs
    · exact List.not_mem_nil
    · exact hpoint

theorem newline_notMem_written {value : Value} {shown : Bytes} (h : value.written = .ok shown) :
    Ascii.newline ∉ shown := by
  cases value with
  | other typeName => cases h
  | null => cases h; decide
  | bool value => cases h; cases value <;> decide
  | int8 value => cases h; exact newline_notMem_ofInt _
  | int16 value => cases h; exact newline_notMem_ofInt _
  | int32 value =>
    cases h
    split_ifs
    · decide
    · exact newline_notMem_ofInt _
  | int64 value =>
    cases h
    split_ifs
    · decide
    · exact List.not_mem_append (newline_notMem_ofInt _) (by decide)
  | char16 unit => cases h; exact newline_notMem_charText unit
  | float bits => cases h; exact newline_notMem_floatText _ (by decide) _
  | double bits => cases h; exact newline_notMem_floatText _ (by decide) _
  | string value => cases h; exact newline_notMem_stringText value

end ClassHeader.Cpp.Literal
