/-!
# Numerals in messages

Offsets are written in lower-case hexadecimal, sizes in decimal. Tables pad
them on the left.

Notes on the formats that messages use:
- `hex` is `{:#x}`, `hex8` is `{:#010x}`, and `padLeft ' ' 8` is `{:>8}`.
- `optionalHex` is `{:x?}` of an optional number, which puts no mark before the digits.
-/

namespace BoundaryTag.Numeral

/-- The lower-case hexadecimal digits of `n`, most significant first. -/
def hexDigits (n : Nat) : String := String.ofList (Nat.toDigits 16 n)

/-- The hexadecimal numeral of `n` behind the mark `0x`. -/
def hex (n : Nat) : String := "0x" ++ hexDigits n

/-- The text `s` behind as many copies of `c` as it takes to be `width` long. -/
def padLeft (c : Char) (width : Nat) (s : String) : String :=
  String.ofList (List.replicate (width - s.length) c) ++ s

/-- The hexadecimal numeral of `n`, zeros filling it up to eight digits. -/
def hex8 (n : Nat) : String := "0x" ++ padLeft '0' 8 (hexDigits n)

/-- An optional offset, in hexadecimal without a mark. -/
def optionalHex : Option Nat → String
  | some n => "Some(" ++ hexDigits n ++ ")"
  | none => "None"

end BoundaryTag.Numeral
