/-
Vectors of bytes as `register read` prints them, and reading them again.
-/
import Gsdb.VectorTexts

namespace Gsdb

open ByteMemory

/-- A digit as `std::format` writes it in base sixteen. -/
def hexDigit (value : Nat) : Byte :=
  if value < 10 then charByte '0' + BitVec.ofNat 8 value
  else charByte 'a' + BitVec.ofNat 8 (value - 10)

/-- `{:#0<width>x}` of a byte: the prefix, zeros up to the width, and the digits. -/
def formatHex (width : Nat) (byte : Byte) : Text :=
  let digits :=
    if byte.toNat < 16 then [hexDigit byte.toNat]
    else [hexDigit (byte.toNat / 16), hexDigit (byte.toNat % 16)]
  [charByte '0', charByte 'x'] ++ List.replicate (width - 2 - digits.length) (charByte '0') ++
    digits

/-- The loop of `format_join` over bytes; `sep` is written in front of the next one. -/
def formatJoinFrom (separator : Text) : Text → List Byte → Text
  | _, [] => []
  | sep, byte :: bytes => sep ++ formatHex 4 byte ++ formatJoinFrom separator separator bytes

/-- `format_join(bytes, separator)`. -/
def formatJoin (separator : Text) (bytes : List Byte) : Text := formatJoinFrom separator [] bytes

/-- `std::format("[{}]", format_join(bytes, ","))`. -/
def formatVector (bytes : List Byte) : Text :=
  ascii "[" ++ formatJoin (ascii ",") bytes ++ ascii "]"

/-- A byte is written as a prefix and two digits, and these denote it. -/
theorem formatHex_isGroup (byte : Byte) : IsGroup (formatHex 4 byte) byte := by
  have hdigits : ∃ high low, formatHex 4 byte = [charByte '0', charByte 'x', high, low] ∧
      isDigitOf 16 high = true ∧ isDigitOf 16 low = true ∧
      BitVec.ofNat 8 (magnitude 16 [high, low]) = byte := by
    refine ⟨hexDigit (byte.toNat / 16), hexDigit (byte.toNat % 16), ?_⟩
    revert byte
    decide +kernel
  obtain ⟨high, low, htext, hhigh, hlow, hbyte⟩ := hdigits
  rw [htext, ← hbyte]
  exact .mk hhigh hlow

/-- Joined bytes are a list of the grammar. -/
theorem formatJoin_isList (byte : Byte) (bytes : List Byte) :
    IsList (formatJoin (ascii ",") (byte :: bytes)) (byte :: bytes) := by
  induction bytes generalizing byte with
  | nil =>
      have hsingle : formatJoin (ascii ",") [byte] = formatHex 4 byte := List.append_nil _
      rw [hsingle]
      exact .single (formatHex_isGroup byte)
  | cons next bytes ih =>
      have hjoin : formatJoin (ascii ",") (byte :: next :: bytes) =
          formatHex 4 byte ++ charByte ',' :: formatJoin (ascii ",") (next :: bytes) := rfl
      rw [hjoin]
      exact .cons (formatHex_isGroup byte) (ih next)

theorem formatVector_isVector (bytes : List Byte) : IsVector (formatVector bytes) bytes := by
  cases bytes with
  | nil => exact .empty
  | cons byte bytes => exact .list (formatJoin_isList byte bytes)

/-- What is printed for a vector is read as that vector: by `parse_vector(text)` for vectors of
every length, and by `parse_vector<N>(text)` for the arrays of eight and sixteen bytes. -/
theorem parseVector_formatVector :
    (∀ bytes : List Byte, parseVector (formatVector bytes) = .ok bytes) ∧
    (∀ array : Vector Byte 8, parseVectorN 8 (formatVector array.toList) = .ok array.toList) ∧
    ∀ array : Vector Byte 16, parseVectorN 16 (formatVector array.toList) = .ok array.toList := by
  refine ⟨fun bytes => parseVector_of_isVector (formatVector_isVector bytes), fun array => ?_,
    fun array => ?_⟩
  · exact parseVectorN_of_isVector (formatVector_isVector _) (by decide) array.length_toList
  · exact parseVectorN_of_isVector (formatVector_isVector _) (by decide) array.length_toList

end Gsdb
