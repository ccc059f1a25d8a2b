import Mathlib
import RowFilter.Binary64

/-!
# Numbers and their ranks

A floating-point number without a sign is the number at its rank (`ofRank_rank`), and
the ranks of finite numbers are those below the rank of infinity
(`rank_lt_infinityRank`).  Every rank up to that of infinity is the rank of its number
(`rank_ofRank`), which has no sign and is not NaN.

Rounding a fraction that is a whole number of units gives the rank with these units
(`nearestRank_units`), and a fraction may be multiplied through (`nearestRank_scale`).
-/

set_option autoImplicit false

namespace RowFilter.Binary64

open Float.Model
open Float.Model.UnpackedFloat (unpackExponent unpackMantissa)

/-! ## Bit patterns -/

theorem toNat_unpackExponent (b : BitVec 64) :
    (@unpackExponent Format.binary64 b).toNat = b.toNat / 2 ^ 52 % 2 ^ 11 := by
  simp [unpackExponent, Nat.shiftRight_eq_div_pow]

theorem toBits_ofBits {bits : UInt64} (valid : Format.binary64.Valid bits.toBitVec) :
    (Float.ofBits bits).toBits = bits := by
  have same := UnpackedFloat.pack_unpack_of_valid valid
  simp only [Float.ofBits, Float.toBits, Float.Model.ofBits, Float.Model.pack, same]

/-! ## Ranks -/

theorem lt_of_le_infinityRank {r : Nat} (le : r ≤ infinityRank) : r < Nat.pow 2 63 :=
  Nat.lt_of_le_of_lt le (by decide)

theorem toNat_ofNat_of_le {r : Nat} (le : r ≤ infinityRank) : (UInt64.ofNat r).toNat = r :=
  UInt64.toNat_ofNat_of_lt' (Nat.lt_trans (lt_of_le_infinityRank le) (by decide))

/-- The exponent of a number is full just where its rank is not below that of infinity. -/
theorem unpackExponent_eq_iff (b : BitVec 64) :
    @unpackExponent Format.binary64 b = -1#_ ↔ infinityRank ≤ b.toNat % Nat.pow 2 63 := by
  have exponent := toNat_unpackExponent b
  have split : infinityRank ≤ b.toNat % Nat.pow 2 63 ↔ b.toNat / 2 ^ 52 % 2 ^ 11 = 2047 := by
    show 2047 * 2 ^ 52 ≤ b.toNat % 2 ^ 63 ↔ _
    omega
  rw [split, ← exponent, ← BitVec.toNat_inj]
  rfl

/-- Up to the rank of infinity a full exponent goes with an empty mantissa. -/
theorem unpackMantissa_of_le {r : Nat} (le : r ≤ infinityRank)
    (full : @unpackExponent Format.binary64 (UInt64.ofNat r).toBitVec = -1#_) :
    @unpackMantissa Format.binary64 (UInt64.ofNat r).toBitVec = 0#_ := by
  have infinite := (unpackExponent_eq_iff _).mp full
  rw [UInt64.toNat_toBitVec, toNat_ofNat_of_le le,
    Nat.mod_eq_of_lt (lt_of_le_infinityRank le)] at infinite
  rw [Nat.le_antisymm le infinite]
  decide

/-- Ranks up to that of infinity are valid bit patterns. -/
theorem valid_of_le {r : Nat} (le : r ≤ infinityRank) :
    Format.binary64.Valid (UInt64.ofNat r).toBitVec :=
  ⟨fun full nonzero => absurd (unpackMantissa_of_le le full) nonzero⟩

theorem toBits_ofRank {r : Nat} (le : r ≤ infinityRank) : (ofRank r).toBits = UInt64.ofNat r :=
  toBits_ofBits (valid_of_le le)

/-- Every rank up to that of infinity is the rank of its number. -/
theorem rank_ofRank {r : Nat} (le : r ≤ infinityRank) : rank (ofRank r) = r := by
  rw [rank, toBits_ofRank le, toNat_ofNat_of_le le]
  exact Nat.mod_eq_of_lt (lt_of_le_infinityRank le)

theorem isNegative_ofRank {r : Nat} (le : r ≤ infinityRank) : isNegative (ofRank r) = false := by
  rw [isNegative, toBits_ofRank le, toNat_ofNat_of_le le]
  exact decide_eq_false (Nat.not_le.mpr (lt_of_le_infinityRank le))

theorem isNaN_ofRank {r : Nat} (le : r ≤ infinityRank) : (ofRank r).isNaN = false := by
  show (UnpackedFloat.unpack Format.binary64 (ofRank r).toBits.toBitVec).isNaN = false
  rw [toBits_ofRank le, UnpackedFloat.unpack]
  split
  · next full =>
      rw [if_pos (unpackMantissa_of_le le full)]
      rfl
  · split
    · split <;> rfl
    · rfl

theorem isInf_ofRank {r : Nat} (finite : r < infinityRank) : (ofRank r).isInf = false := by
  have le := Nat.le_of_lt finite
  have notFull : ¬@unpackExponent Format.binary64 (UInt64.ofNat r).toBitVec = -1#_ := by
    rw [unpackExponent_eq_iff, UInt64.toNat_toBitVec, toNat_ofNat_of_le le,
      Nat.mod_eq_of_lt (lt_of_le_infinityRank le)]
    exact Nat.not_le.mpr finite
  show (UnpackedFloat.unpack Format.binary64 (ofRank r).toBits.toBitVec).isInf = false
  rw [toBits_ofRank le, UnpackedFloat.unpack, if_neg notFull]
  split
  · split <;> rfl
  · rfl

/-- A number without a sign is the number at its rank. -/
theorem ofRank_rank {x : Float} (positive : isNegative x = false) : ofRank (rank x) = x := by
  have small : x.toBits.toNat < Nat.pow 2 63 := Nat.not_le.mp (of_decide_eq_false positive)
  rw [ofRank, rank, Nat.mod_eq_of_lt small, UInt64.ofNat_toNat, Float.ofBits_toBits]

/-- Finite numbers have ranks below that of infinity. -/
theorem rank_lt_infinityRank {x : Float} (number : x.isNaN = false) (finite : x.isInf = false) :
    rank x < infinityRank := by
  apply Nat.not_le.mp
  intro infinite
  have full := (unpackExponent_eq_iff x.toBits.toBitVec).mpr infinite
  change (UnpackedFloat.unpack Format.binary64 x.toBits.toBitVec).isNaN = false at number
  change (UnpackedFloat.unpack Format.binary64 x.toBits.toBitVec).isInf = false at finite
  rw [UnpackedFloat.unpack, if_pos full] at number finite
  split at number
  · next zero =>
      rw [if_pos zero] at finite
      cases finite
  · cases number

/-! ## Signs -/

/-- The floating-point number with a sign and a rank. -/
def withSign (negative : Bool) (rank : Nat) : Float :=
  ofRank (if negative then Nat.pow 2 63 + rank else rank)

/-- A number is determined by its sign and its rank. -/
theorem withSign_rank (x : Float) : withSign (isNegative x) (rank x) = x := by
  cases sign : isNegative x with
  | false => exact ofRank_rank sign
  | true =>
      have least : Nat.pow 2 63 ≤ x.toBits.toNat := of_decide_eq_true sign
      have most : x.toBits.toNat < 2 ^ 64 := x.toBits.toNat_lt
      have whole : Nat.pow 2 63 + rank x = x.toBits.toNat := by
        rw [rank]
        change 2 ^ 63 ≤ _ at least
        change 2 ^ 63 + x.toBits.toNat % 2 ^ 63 = _
        omega
      rw [withSign, if_pos rfl, whole, ofRank, UInt64.ofNat_toNat, Float.ofBits_toBits]

theorem rank_lt_infinityRank_of_isFinite {x : Float} (finite : x.isFinite = true) :
    rank x < infinityRank := by
  apply rank_lt_infinityRank
  all_goals
    change (UnpackedFloat.unpack Format.binary64 x.toBits.toBitVec).isFinite = true at finite
  · show (UnpackedFloat.unpack Format.binary64 x.toBits.toBitVec).isNaN = false
    generalize UnpackedFloat.unpack Format.binary64 x.toBits.toBitVec = unpacked at finite ⊢
    cases unpacked <;> first | rfl | cases finite
  · show (UnpackedFloat.unpack Format.binary64 x.toBits.toBitVec).isInf = false
    generalize UnpackedFloat.unpack Format.binary64 x.toBits.toBitVec = unpacked at finite ⊢
    cases unpacked <;> first | rfl | cases finite

/-! ## Rounding -/

theorem roundQuotient_scale {k : Nat} (positive : 0 < k) (n d : Nat) :
    roundQuotient (n * k) (d * k) = roundQuotient n d := by
  have twice (m : Nat) : 2 * (m * k) = 2 * m * k := (Nat.mul_assoc ..).symm
  have less (m : Nat) : m * k < d * k ↔ m < d := Nat.mul_lt_mul_right positive
  have more (m : Nat) : d * k < m * k ↔ d < m := Nat.mul_lt_mul_right positive
  simp only [roundQuotient, Nat.mul_div_mul_right _ _ positive, Nat.mul_mod_mul_right, twice,
    less, more]

/-- Rounding a fraction depends on its value only. -/
theorem nearestRank_scale {k : Nat} (positive : 0 < k) (n d : Nat) :
    nearestRank (n * k) (d * k) = nearestRank n d := by
  simp only [nearestRank, Nat.mul_div_mul_right _ _ positive, Nat.mul_right_comm d k,
    roundQuotient_scale positive]

theorem roundQuotient_mul {d : Nat} (positive : 0 < d) (n : Nat) :
    roundQuotient (n * d) d = n := by
  simp only [roundQuotient, Nat.mul_div_cancel _ positive, Nat.mul_mod_left, Nat.mul_zero,
    if_pos positive]

theorem log2_subnormal {r : Nat} (subnormal : r < binade) : r.log2 - 52 = 0 := by
  by_cases zero : r = 0
  · rw [zero, Nat.log2_zero]
  · exact Nat.sub_eq_zero_of_le (Nat.le_of_lt ((Nat.log2_lt zero).mpr subnormal))

/-- The logarithm of a full significand gives back the power of two by which it is scaled. -/
theorem log2_normal {m : Nat} (least : binade ≤ m) (most : m < 2 * binade) (k : Nat) :
    (m * 2 ^ k).log2 - 52 = k := by
  have positive : m * 2 ^ k ≠ 0 :=
    Nat.mul_ne_zero (Nat.ne_of_gt (Nat.lt_of_lt_of_le (by decide) least))
      (Nat.ne_of_gt (Nat.two_pow_pos k))
  have log : (m * 2 ^ k).log2 = 52 + k := by
    refine (Nat.log2_eq_iff positive).mpr ⟨?_, ?_⟩
    · rw [Nat.pow_add]
      exact Nat.mul_le_mul_right _ least
    · have top : 2 ^ (52 + k + 1) = 2 * binade * 2 ^ k := by
        rw [Nat.add_right_comm, Nat.pow_add]
        rfl
      rw [top]
      exact (Nat.mul_lt_mul_right (Nat.two_pow_pos k)).mpr most
  rw [log, Nat.add_sub_cancel_left]

/-- A whole number of units is rounded to the rank that has them. -/
theorem nearestRank_units {r : Nat} (finite : r < infinityRank) :
    nearestRank (units r) 1 = r := by
  have rounded : ((units r).log2 - 52) * binade +
      roundQuotient (units r) (2 ^ ((units r).log2 - 52)) = r := by
    by_cases subnormal : r < binade
    · rw [units, if_pos subnormal, log2_subnormal subnormal, Nat.zero_mul, Nat.zero_add,
        Nat.pow_zero]
      simpa using roundQuotient_mul Nat.one_pos r
    · have significand : r % binade < binade := Nat.mod_lt r (by decide)
      have binades : binade ≤ r / binade * binade := by
        have positive : 1 ≤ r / binade :=
          Nat.div_pos (Nat.not_lt.mp subnormal) (by decide)
        simpa using Nat.mul_le_mul_right binade positive
      have whole := Nat.div_add_mod' r binade
      have normal : units r = (r % binade + binade) * 2 ^ (r / binade - 1) := by
        rw [units, if_neg subnormal]
        rfl
      rw [normal, log2_normal (by omega) (by omega), roundQuotient_mul (Nat.two_pow_pos _),
        Nat.sub_mul, Nat.one_mul]
      omega
  rw [nearestRank, Nat.div_one, Nat.one_mul]
  exact (congrArg (min infinityRank) rounded).trans (Nat.min_eq_right (Nat.le_of_lt finite))

end RowFilter.Binary64
