import ClassHeader.Decimal
import ClassHeader.Error

/-!
# C++ literals

The written form of constant values. Numbers whose usual form C++ does not
read are written as macros, characters and strings as UTF-16 literals.
-/

namespace ClassHeader.Cpp

inductive Value where
  | null
  | bool (value : Bool)
  | int8 (value : Int8)
  | int16 (value : Int16)
  | int32 (value : Int32)
  | int64 (value : Int64)
  | char16 (unit : UInt16)
  | float (bits : UInt32)
  | double (bits : UInt64)
  | string (value : Bytes)
  /-- A value of a type that has no literals. -/
  | other (typeName : Bytes)
  deriving DecidableEq, Repr

def numberWords : Decimal.Words := ⟨text "NAN", text "INFINITY", text "-INFINITY"⟩

def floatText (format : Decimal.BinaryFormat) (ending : Bytes) (bits : Nat) : Bytes :=
  let shown := format.render numberWords bits
  match format.magnitude bits with
  | .nan | .infinite => shown
  | _ =>
    shown ++ (if shown.any fun c => c = 46 || c = 101 || c = 69 then [] else text ".0") ++ ending

/-- A character between quotes `mark`. Octal escapes have three digits and the others a fixed
number, so that no following character is taken into them. -/
def escapeLiteral (mark : Char) (code : Nat) : Bytes :=
  if code = 92 then text "\\\\"
  else if code = 10 then text "\\n"
  else if code = 13 then text "\\r"
  else if code = 9 then text "\\t"
  else if code = mark.toNat then text "\\" ++ Text.ofChars [mark]
  else if code < 0x20 ∨ code = 0x7F then text "\\" ++ Text.digits 8 3 code
  else if code < 0x80 then [UInt8.ofNat code]
  else if 0xFFFF < code then text "\\U" ++ Text.hex 8 code
  else text "\\u" ++ Text.hex 4 code

def charText (unit : UInt16) : Bytes :=
  let code := unit.toNat
  text "u'" ++ (if 0xD800 ≤ code ∧ code ≤ 0xDFFF then text "\\x" ++ Text.hex 4 code
    else escapeLiteral '\'' code) ++ text "'"

/-- A string literal; stray bytes are written as U+FFFD. -/
def stringText (s : Bytes) : Bytes :=
  text "u\"" ++ (Utf8.lossyChars s).flatMap (fun c => escapeLiteral '"' c.toNat) ++ text "\""

def Value.written : Value → Result Bytes
  | .null => return text "nullptr"
  | .bool value => return text (if value then "true" else "false")
  | .int8 value => return Text.ofInt value.toInt
  | .int16 value => return Text.ofInt value.toInt
  | .int32 value =>
    return if value = Int32.minValue then text "INT32_MIN" else Text.ofInt value.toInt
  | .int64 value =>
    return if value = Int64.minValue then text "INT64_MIN" else Text.ofInt value.toInt ++ text "LL"
  | .char16 unit => return charText unit
  | .float bits => return floatText Decimal.single (text "f") bits.toNat
  | .double bits => return floatText Decimal.double [] bits.toNat
  | .string value => return stringText value
  | .other typeName =>
    throw (.fault {
      phase := .codegen, kind := .invalidConfig
      detail := text "unsupported literal type " ++ typeName })

end ClassHeader.Cpp
