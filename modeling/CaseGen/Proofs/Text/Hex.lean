import CaseGen.Text.Form
import CaseGen.Text.Hex

/-! # Reading hexadecimal text

    Quoted hexadecimal text is read two lowercase digits at a time.  The
    reader takes exactly the texts that are written, each of them for the
    buffer that it was written for.

    * `hexValue?`, `readHex?`, `readQuotedHex?` — reading a digit, digits, and a quoted text
    * `readQuotedHex?_eq_some_iff` — what is read is what was written
    * `singleItem_quotedHex`       — quoted text is one item of a joined list -/

namespace CaseGen.Text

variable {c : Char} {n : Nat} {bytes : List UInt8} {l : List Char} {s : String}

/-! ## Section 1: Digits -/

/-- The number that a lowercase digit stands for. -/
def hexValue? (c : Char) : Option Nat :=
  if '0'.toNat ≤ c.toNat ∧ c.toNat ≤ '9'.toNat then some (c.toNat - '0'.toNat)
  else if 'a'.toNat ≤ c.toNat ∧ c.toNat ≤ 'f'.toNat then some (c.toNat - 'a'.toNat + 10)
  else none

theorem hexValue?_hexDigit (h : n < 16) : hexValue? (hexDigit n) = some n := by
  have all : ∀ m < 16, hexValue? (hexDigit m) = some m := by decide
  exact all n h

/-- A character that stands for a number is the digit of that number. -/
theorem hexDigit_of_hexValue? (h : hexValue? c = some n) : n < 16 ∧ hexDigit n = c := by
  have zero : '0'.toNat = 48 := rfl
  have nine : '9'.toNat = 57 := rfl
  have a : 'a'.toNat = 97 := rfl
  have f : 'f'.toNat = 102 := rfl
  unfold hexValue? at h
  unfold hexDigit
  split at h
  · obtain rfl := Option.some.inj h
    have code : '0'.toNat + (c.toNat - '0'.toNat) = c.toNat := by omega
    rw [if_pos (by omega), code]
    exact ⟨by omega, Char.ofNat_toNat c⟩
  · split at h
    · obtain rfl := Option.some.inj h
      have code : 'a'.toNat + (c.toNat - 'a'.toNat + 10 - 10) = c.toNat := by omega
      rw [if_neg (by omega), code]
      exact ⟨by omega, Char.ofNat_toNat c⟩
    · cases h

/-! ## Section 2: Bytes -/

/-- The bytes that digits stand for, two digits a byte. -/
def readHex? : List Char → Option (List UInt8)
  | [] => some []
  | [_] => none
  | c :: d :: rest =>
    match hexValue? c, hexValue? d, readHex? rest with
    | some high, some low, some bytes => some (UInt8.ofNat (16 * high + low) :: bytes)
    | _, _, _ => none

/-- The bytes of a quoted text. -/
def readQuotedHex? (s : String) : Option (List UInt8) :=
  match s.toList with
  | '"' :: rest => if rest.getLast? = some '"' then readHex? rest.dropLast else none
  | _ => none

theorem readHex?_hexByte (bytes : List UInt8) : readHex? (bytes.flatMap hexByte) = some bytes := by
  induction bytes with
  | nil => rfl
  | cons b bytes ih =>
    have lt := b.toNat_lt
    have high : hexValue? (hexDigit (b.toNat / 16)) = some (b.toNat / 16) :=
      hexValue?_hexDigit (by omega)
    have low : hexValue? (hexDigit (b.toNat % 16)) = some (b.toNat % 16) :=
      hexValue?_hexDigit (by omega)
    have whole : 16 * (b.toNat / 16) + b.toNat % 16 = b.toNat := by omega
    simp only [List.flatMap_cons, hexByte, List.cons_append, List.nil_append, readHex?, high, low, ih,
      whole, UInt8.ofNat_toNat]

theorem hexByte_of_values {c d : Char} {high low : Nat} (h : hexValue? c = some high)
    (h' : hexValue? d = some low) : hexByte (UInt8.ofNat (16 * high + low)) = [c, d] := by
  obtain ⟨lt, rfl⟩ := hexDigit_of_hexValue? h
  obtain ⟨lt', rfl⟩ := hexDigit_of_hexValue? h'
  have value : (UInt8.ofNat (16 * high + low)).toNat = 16 * high + low := by
    rw [UInt8.toNat_ofNat']
    omega
  have div : (16 * high + low) / 16 = high := by omega
  have mod : (16 * high + low) % 16 = low := by omega
  rw [hexByte, value, div, mod]

theorem eq_of_readHex? (h : readHex? l = some bytes) : l = bytes.flatMap hexByte := by
  fun_induction readHex? l generalizing bytes with
  | case1 =>
    cases h
    rfl
  | case2 => cases h
  | case3 c d rest high low bytes' read value' value ih =>
    cases h
    rw [List.flatMap_cons, hexByte_of_values value value', ← ih read]
    rfl
  | case4 => cases h

/-- Exactly the text of a buffer is read as that buffer. -/
theorem readQuotedHex?_eq_some_iff : readQuotedHex? s = some bytes ↔ s = quotedHex bytes := by
  constructor
  · intro h
    unfold readQuotedHex? at h
    split at h
    · next rest chars =>
      split at h
      · next closed =>
        obtain ⟨inner, rfl⟩ := List.getLast?_eq_some_iff.mp closed
        rw [List.dropLast_concat] at h
        rw [quotedHex, ← eq_of_readHex? h, ← chars, String.ofList_toList]
      · cases h
    · cases h
  · intro h
    subst h
    rw [readQuotedHex?, quotedHex, String.toList_ofList]
    simp only [List.getLast?_concat, if_true, List.dropLast_concat]
    exact readHex?_hexByte bytes

/-! ## Section 3: Items of a line -/

theorem singleItem_quotedHex (bytes : List UInt8) : SingleItem (quotedHex bytes) := by
  have digits : ∀ n < 16, ¬ IsLineBreak (hexDigit n) ∧ hexDigit n ≠ ':' := by decide
  have quote : ¬ IsLineBreak '"' ∧ '"' ≠ ':' := by decide
  intro c mem
  simp only [quotedHex, String.toList_ofList, List.mem_cons, List.mem_append, List.mem_flatMap,
    hexByte, List.not_mem_nil, or_false] at mem
  rcases mem with rfl | ⟨b, -, rfl | rfl⟩ | rfl
  · exact quote
  · have lt := b.toNat_lt
    exact digits _ (by omega)
  · exact digits _ (by omega)
  · exact quote

end CaseGen.Text
