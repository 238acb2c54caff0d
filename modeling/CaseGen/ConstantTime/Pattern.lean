import CaseGen.Failure
import CaseGen.Number.Significand

/-! # Pattern buffers

    Test buffers are filled with a fixed pattern: byte `i` of a buffer is
    `seed + 37 * i + 11` modulo 256, each sum being kept to 53 significant
    bits.  A larger seed only shifts the pattern, and since 37 is odd any
    256 bytes in a row hold every byte value.

    * `patternByte`   — one byte of the pattern
    * `patternBytes`  — a buffer of the pattern
    * `patternBytes?` — the same for any length, where there is so much room -/

namespace CaseGen.ConstantTime

/-- The byte of the pattern at a position. -/
def patternByte (seed : Int) (i : Nat) : UInt8 :=
  UInt8.ofNat (Number.add (Number.add seed (i * 37)) 11 % 256).toNat

/-- The first bytes of the pattern of a seed. -/
def patternBytes (length : Nat) (seed : Int) : List UInt8 :=
  (List.range length).map (patternByte seed)

/-- The first bytes of the pattern, where there is room for so many bytes; a negative length is
    refused, and one that there is no room for. -/
def patternBytes? (room : Nat) (length seed : Int) : Except Failure (List UInt8) :=
  if length < 0 then .error (.negativeLength length)
  else if length.toNat > room then .error .noRoom
  else .ok (patternBytes length.toNat seed)

end CaseGen.ConstantTime
