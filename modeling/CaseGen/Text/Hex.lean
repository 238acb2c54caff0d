/-! # Bytes as hexadecimal text

    A byte is written as two lowercase digits, the high half first, and a
    buffer as the digits of its bytes between double quotes. -/

namespace CaseGen.Text

/-- The lowercase digit of a number below sixteen. -/
def hexDigit (n : Nat) : Char :=
  if n < 10 then Char.ofNat ('0'.toNat + n) else Char.ofNat ('a'.toNat + (n - 10))

/-- The two digits of a byte. -/
def hexByte (b : UInt8) : List Char := [hexDigit (b.toNat / 16), hexDigit (b.toNat % 16)]

/-- A buffer as quoted hexadecimal text. -/
def quotedHex (bytes : List UInt8) : String :=
  String.ofList ('"' :: (bytes.flatMap hexByte ++ ['"']))

end CaseGen.Text
