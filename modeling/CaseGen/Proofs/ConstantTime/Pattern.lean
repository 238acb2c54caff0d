import CaseGen.ConstantTime.Pattern
import Mathlib.Logic.ExistsUnique

/-! # What a pattern buffer holds

    As long as no sum needs more than 53 bits, none is rounded, and a byte
    of the pattern is the low byte of the sum at its position.  Modulo 256
    a sum can be taken back: 37 times 173 leaves 1, so the byte tells the
    position if the seed is known, and the seed if the position is known.

    * `SumsExact`, `lowByte`  — sums that are not rounded, and low bytes of integers
    * `patternByte_eq`, `toNat_lowByte` — a byte is the low byte of its sum, the sum modulo 256
    * `residue_position`, `residue_seed` — what a byte tells of position and seed
    * `getElem?_eq_iff_position`, `existsUnique_position` — a buffer goes around every 256 positions
    * `pattern_by_residues`   — bytes, windows and prefixes of a buffer, and two seeds -/

namespace CaseGen

/-! ## Section 1: Sums that are not rounded -/

namespace Number

theorem roundNat_of_le {n : Nat} (small : n ≤ 9007199254740992) : roundNat n = n := if_pos small

theorem roundInt_of_natAbs_le {n : Int} (small : n.natAbs ≤ 9007199254740992) : roundInt n = n := by
  cases n with
  | ofNat m => exact congrArg Int.ofNat (roundNat_of_le small)
  | negSucc m => exact congrArg (fun k => -Int.ofNat k) (roundNat_of_le small)

theorem add_of_natAbs_le {a b : Int} (small : (a + b).natAbs ≤ 9007199254740992) :
    add a b = a + b :=
  roundInt_of_natAbs_le small

end Number

namespace ConstantTime

/-- The greatest size up to which integers are kept apart from all others: `2 ^ 53 - 1`. -/
def maxExact : Nat := 9007199254740991

/-- The sums of a buffer stay exact, from the seed up to the sum behind the last byte. -/
structure SumsExact (length : Nat) (seed : Int) : Prop where
  first : seed.natAbs ≤ maxExact
  last : (seed + 37 * length + 11).natAbs ≤ maxExact

/-- The low byte of an integer: what a mask leaves of its word of 32 bits in two's complement. -/
def lowByte (n : Int) : UInt8 := UInt8.ofBitVec ((BitVec.ofInt 32 n &&& 0xFF#32).setWidth 8)

variable {length i j : Nat} {seed seed' : Int}

/-- The remainder is not negative, whatever the sign of the integer is. -/
theorem toNat_lowByte (n : Int) : ((lowByte n).toNat : Int) = n % 256 := by
  have mask (w : Nat) : w &&& 255 = w % 256 := Nat.and_two_pow_sub_one_eq_mod w 8
  have word : (BitVec.ofInt 32 n).toNat = (n % 4294967296).toNat := BitVec.toNat_ofInt n
  have byte : (lowByte n).toNat = (n % 4294967296).toNat % 256 % 256 := by
    show ((BitVec.ofInt 32 n &&& 0xFF#32).setWidth 8).toNat = _
    rw [BitVec.toNat_setWidth, BitVec.toNat_and, word, BitVec.toNat_ofNat]
    exact congrArg (· % 256) (mask _)
  omega

/-- A byte of the pattern is the low byte of its sum. -/
theorem patternByte_eq (exact : SumsExact length seed) (lt : i < length) :
    patternByte seed i = lowByte (seed + 37 * i + 11) := by
  obtain ⟨first, last⟩ := exact
  unfold maxExact at first last
  -- both sums lie between the seed and the sum behind the last byte
  have step : Number.add seed (i * 37) = seed + i * 37 := Number.add_of_natAbs_le (by omega)
  have sum : Number.add (seed + i * 37) 11 = seed + i * 37 + 11 :=
    Number.add_of_natAbs_le (by omega)
  have low := toNat_lowByte (seed + 37 * i + 11)
  apply UInt8.toNat_inj.mp
  rw [patternByte, step, sum, UInt8.toNat_ofNat']
  omega

/-! ## Section 2: Sums modulo 256 -/

/-- For one seed the residue tells the position: `37 * 173` leaves 1. -/
theorem residue_position :
    (seed + 37 * i + 11) % 256 = (seed + 37 * j + 11) % 256 ↔ i % 256 = j % 256 := by
  constructor
  · intro same
    have multiple : (37 * ((i : Int) - j)) % 256 = 0 := by omega
    have back : (173 * (37 * ((i : Int) - j))) % 256 = 0 := by omega
    omega
  · intro same
    omega

/-- At one position the residue tells the seed. -/
theorem residue_seed :
    (seed + 37 * i + 11) % 256 = (seed' + 37 * i + 11) % 256 ↔ seed % 256 = seed' % 256 := by
  omega

/-- From any position on, one of the next 256 sums leaves a given residue. -/
theorem exists_position (seed : Int) (start : Nat) (b : UInt8) :
    ∃ i, start ≤ i ∧ i < start + 256 ∧ (b.toNat : Int) = (seed + 37 * i + 11) % 256 := by
  have small := b.toNat_lt
  -- what is missing at `start` is made up by that many steps of 37
  let steps := (173 * (b.toNat - (seed + 37 * start + 11))) % 256
  refine ⟨start + steps.toNat, ?_, ?_, ?_⟩
  · omega
  · omega
  · push_cast
    omega

/-! ## Section 3: Buffers -/

theorem getElem?_patternBytes (lt : i < length) :
    (patternBytes length seed)[i]? = some (patternByte seed i) := by
  rw [patternBytes, List.getElem?_map, List.getElem?_range lt]
  rfl

theorem take_patternBytes {shorter : Nat} (le : shorter ≤ length) :
    (patternBytes length seed).take shorter = patternBytes shorter seed := by
  rw [patternBytes, ← List.map_take, List.take_range, Nat.min_eq_left le]
  rfl

theorem patternByte_eq_iff (exact : SumsExact length seed) (exact' : SumsExact length seed')
    (lt : i < length) (lt' : j < length) : patternByte seed i = patternByte seed' j ↔
      (seed + 37 * i + 11) % 256 = (seed' + 37 * j + 11) % 256 := by
  rw [patternByte_eq exact lt, patternByte_eq exact' lt', ← UInt8.toNat_inj, ← Int.ofNat_inj,
    toNat_lowByte, toNat_lowByte]

/-- Within a buffer the bytes go around every 256 positions. -/
theorem getElem?_eq_iff_position (exact : SumsExact length seed) (lt : i < length)
    (lt' : j < length) :
    (patternBytes length seed)[i]? = (patternBytes length seed)[j]? ↔ i % 256 = j % 256 := by
  rw [getElem?_patternBytes lt, getElem?_patternBytes lt', Option.some.injEq,
    patternByte_eq_iff exact exact lt lt', residue_position]

/-- Any 256 positions in a row hold each byte once. -/
theorem existsUnique_position (exact : SumsExact length seed) {start : Nat}
    (fits : start + 256 ≤ length) (b : UInt8) :
    ∃! i, start ≤ i ∧ i < start + 256 ∧ (patternBytes length seed)[i]? = some b := by
  obtain ⟨i, first, last, residue⟩ := exists_position seed start b
  have holds : (patternBytes length seed)[i]? = some b := by
    rw [getElem?_patternBytes (by omega), patternByte_eq exact (by omega), Option.some.injEq,
      ← UInt8.toNat_inj, ← Int.ofNat_inj, toNat_lowByte, residue]
  refine ⟨i, ⟨first, last, holds⟩, ?_⟩
  intro j h
  obtain ⟨first', last', holds'⟩ := h
  have agree : j % 256 = i % 256 :=
    (getElem?_eq_iff_position exact (by omega) (by omega)).mp (holds'.trans holds.symm)
  omega

/-- Seeds that agree modulo 256 have the same buffers. -/
theorem patternBytes_congr (exact : SumsExact length seed) (exact' : SumsExact length seed')
    (same : seed % 256 = seed' % 256) : patternBytes length seed = patternBytes length seed' := by
  apply List.map_congr_left
  intro i mem
  have lt : i < length := List.mem_range.mp mem
  exact (patternByte_eq_iff exact exact' lt lt).mpr (residue_seed.mpr same)

/-- A buffer of any length that there is room for is answered.  As long as its sums are exact, each
    byte is the low byte of its sum, the remainder modulo 256; two bytes are equal exactly if their
    positions agree modulo 256, so any 256 positions in a row hold each byte once; and two buffers
    of one length agree at one position exactly if their seeds agree modulo 256, and then they agree
    at all positions.  A shorter buffer begins a longer one. -/
theorem pattern_by_residues (length : Nat) (seed : Int) (exact : SumsExact length seed) :
    (∀ room, length ≤ room → patternBytes? room length seed = .ok (patternBytes length seed)) ∧
    (patternBytes length seed).length = length ∧
    (∀ i < length, ∃ b, (patternBytes length seed)[i]? = some b ∧
      b = lowByte (seed + 37 * i + 11) ∧ (b.toNat : Int) = (seed + 37 * i + 11) % 256) ∧
    -- one buffer
    (∀ i < length, ∀ j < length,
      (patternBytes length seed)[i]? = (patternBytes length seed)[j]? ↔ i % 256 = j % 256) ∧
    (∀ start, start + 256 ≤ length → ∀ b : UInt8,
      ∃! i, start ≤ i ∧ i < start + 256 ∧ (patternBytes length seed)[i]? = some b) ∧
    (∀ shorter ≤ length, patternBytes shorter seed <+: patternBytes length seed) ∧
    -- another seed
    ∀ seed', SumsExact length seed' →
      (∀ i < length, (patternBytes length seed)[i]? = (patternBytes length seed')[i]? ↔
        seed % 256 = seed' % 256) ∧
      (seed % 256 = seed' % 256 → patternBytes length seed = patternBytes length seed') := by
  refine ⟨?_, ?_, ?_, ?_, ?_, ?_, ?_⟩
  · intro room fits
    rw [patternBytes?, if_neg (by omega), if_neg (by simpa using fits)]
    rfl
  · rw [patternBytes, List.length_map, List.length_range]
  · intro i lt
    exact ⟨_, getElem?_patternBytes lt, patternByte_eq exact lt,
      patternByte_eq exact lt ▸ toNat_lowByte _⟩
  · intro i lt j lt'
    exact getElem?_eq_iff_position exact lt lt'
  · intro start fits b
    exact existsUnique_position exact fits b
  · intro shorter le
    rw [← take_patternBytes le]
    exact List.take_prefix _ _
  · intro seed' exact'
    refine ⟨?_, patternBytes_congr exact exact'⟩
    intro i lt
    rw [getElem?_patternBytes lt, getElem?_patternBytes lt, Option.some.injEq,
      patternByte_eq_iff exact exact' lt lt, residue_seed]

/-- The least seed of all, in a buffer that goes around more than once, beside a seed that is not
    negative and leaves the same remainder. -/
theorem pattern_by_residues_least_seed :
    let least : Int := -9007199254740991
    SumsExact 300 least ∧ SumsExact 300 1 ∧
      (patternBytes 300 least)[256]? = (patternBytes 300 least)[0]? ∧
      (patternBytes 300 least)[0]? = some 12 ∧
      patternBytes 300 least = patternBytes 300 1 ∧
      patternBytes? 300 300 least = .ok (patternBytes 300 1) := by
  intro least
  have exact : SumsExact 300 least := ⟨by decide, by decide⟩
  have exact' : SumsExact 300 1 := ⟨by decide, by decide⟩
  obtain ⟨answered, -, bytes, positions, -, -, seeds⟩ := pattern_by_residues 300 least exact
  have same : patternBytes 300 least = patternBytes 300 1 := (seeds 1 exact').2 rfl
  obtain ⟨b, found, -, residue⟩ := bytes 0 (by decide)
  have twelve : b = 12 := by
    apply UInt8.toNat_inj.mp
    have remainder : ((12 : UInt8).toNat : Int) = (least + 37 * (0 : Nat) + 11) % 256 := by decide
    omega
  refine ⟨exact, exact', (positions 256 (by decide) 0 (by decide)).mpr rfl, ?_, same, ?_⟩
  · rw [found, twelve]
  · rw [← same]
    exact answered 300 (by decide)

/-- A seed below the range, though the sum behind the last byte is in it: the first sum is rounded,
    and byte 0 is not the low byte of the sum. -/
theorem first_sum_rounded :
    let seed : Int := -9007199254741092
    (seed + 37 * (10 : Nat) + 11).natAbs ≤ maxExact ∧
      patternBytes? 10 10 seed = .ok (patternBytes 10 seed) ∧
      (patternBytes 10 seed)[0]? = some 168 ∧ (seed + 37 * (0 : Nat) + 11) % 256 = 167 := by
  intro seed
  exact ⟨by decide, rfl, by decide +kernel, by decide⟩

/-- The first bytes of the pattern. -/
example : patternBytes 4 0 = [11, 48, 85, 122] := by decide

end ConstantTime

end CaseGen
