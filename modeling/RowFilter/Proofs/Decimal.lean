import RowFilter.Decimal.Layout
import RowFilter.Proofs.Binary64

/-!
# Written decimals

The search for the shortest decimal of a number returns a decimal that has been tried,
or the one that is exactly the number.  Either reads back as the number
(`shortest_nearestRank`).

The text of a decimal is taken apart here into the digits before its point, those after
it and its power of ten (`Spelling`).  What a format writes spells a decimal that may have
other digits than the one that was to be written, because zeros have been put before the
point or after it, but it reads back as the same number, and it does not begin with a zero that
could be left out (`written_spelled`).
-/

set_option autoImplicit false

namespace RowFilter.Decimal

open Binary64 (units infinityRank)

/-! ## Decimals of ordinary size -/

/-- A decimal that is not settled by its size alone. -/
def Ordinary (d : Decimal) : Prop :=
  d.coefficient ≠ 0 ∧ d.exponent ≤ greatExponent ∧
    -greatExponent ≤ d.exponent + d.coefficient.log2

theorem nearestRank_of_ordinary {d : Decimal} (ordinary : Ordinary d) :
    d.nearestRank = Binary64.nearestRank d.fraction.1 d.fraction.2 := by
  obtain ⟨nonzero, small, large⟩ := ordinary
  rw [nearestRank, if_neg nonzero, if_neg (Int.not_lt.mpr small), if_neg (Int.not_lt.mpr large)]

/-! ## The search -/

theorem units_ne_zero {rank : Nat} (positive : rank ≠ 0) : units rank ≠ 0 := by
  rw [units]
  split
  · exact positive
  · have significand : 0 < rank % Binary64.binade + Binary64.binade :=
      Nat.add_pos_right _ (by decide)
    exact Nat.mul_ne_zero (Nat.ne_of_gt significand) (Nat.ne_of_gt (Nat.two_pow_pos _))

/-- The number of places on the finest grid is a variable here, so that no power of ten
is computed. -/
theorem nearestRank_finest {rank places : Nat} (finest : places = 1074) (positive : rank ≠ 0)
    (finite : rank < infinityRank) :
    nearestRank ⟨units rank * Nat.pow 5 places, -(places : Int)⟩ = rank := by
  have large : 2 ^ places ≤ units rank * 5 ^ places :=
    Nat.le_trans (Nat.pow_le_pow_left (by decide) places)
      (Nat.le_mul_of_pos_left _ (Nat.pos_of_ne_zero (units_ne_zero positive)))
  have nonzero : units rank * 5 ^ places ≠ 0 :=
    Nat.ne_of_gt (Nat.lt_of_lt_of_le (Nat.two_pow_pos places) large)
  have log : places ≤ (units rank * 5 ^ places).log2 := (Nat.le_log2 nonzero).mpr large
  have ordinary : Ordinary ⟨units rank * Nat.pow 5 places, -(places : Int)⟩ := by
    refine ⟨nonzero, ?_, ?_⟩
    · show -(places : Int) ≤ 400
      omega
    · show (-400 : Int) ≤ -(places : Int) + (units rank * 5 ^ places).log2
      omega
  have above : (-(places : Int)).toNat = 0 := by omega
  have below : (-(-(places : Int))).toNat = places := by omega
  have numerator : units rank * 5 ^ places * 10 ^ 0 * 2 ^ places = units rank * 10 ^ places := by
    rw [Nat.pow_zero, Nat.mul_one, Nat.mul_assoc, ← Nat.mul_pow]
  have scaled := Binary64.nearestRank_scale (Nat.pow_pos (n := places) (show 0 < 10 by decide))
    (units rank) 1
  rw [Nat.one_mul, Binary64.nearestRank_units finite, ← numerator] at scaled
  rw [nearestRank_of_ordinary ordinary, fraction, above, below, ← finest]
  exact scaled

/-- Whatever the search returns reads back, as long as the number on the finest grid
does. -/
theorem searchGrids_nearestRank {tie : TieRule} {rank coefficient : Nat}
    (finest : (onGrid coefficient 0).nearestRank = rank) (dropped : Nat) :
    (searchGrids tie rank coefficient dropped).nearestRank = rank := by
  induction dropped with
  | zero => exact finest
  | succ dropped ih =>
      simp only [searchGrids]
      split
      · assumption
      · split
        · assumption
        · exact ih

/-- **The shortest decimal of a finite number reads back.** -/
theorem shortest_nearestRank (tie : TieRule) {rank : Nat} (finite : rank < infinityRank) :
    (shortest tie rank).nearestRank = rank := by
  rw [shortest]
  split
  · next zero =>
      rw [zero]
      rfl
  · next positive =>
      generalize finest : 1074 = places
      have grid (c : Nat) : onGrid c 0 = ⟨c, -(places : Int)⟩ := by
        rw [← finest]
        rfl
      refine searchGrids_nearestRank ?_ _
      rw [grid]
      exact nearestRank_finest finest.symm positive finite

/-! ## Texts of decimals -/

/-- A decimal as it is spelled: digits, perhaps a point and more digits, and perhaps a
power of ten. -/
structure Spelling where
  whole : List Char
  fraction : Option (List Char)
  power : Option Int

namespace Spelling

/-- The digits after the point. -/
def places (n : Spelling) : List Char := n.fraction.getD []

/-- The text of a spelling. -/
def text (n : Spelling) : List Char :=
  n.whole ++ (n.fraction.elim [] ('.' :: ·) ++ n.power.elim [] fun p => 'e' :: p.repr.toList)

/-- A power of ten, which has a plus sign in some formats if it is positive. -/
def powerText (plusSign : Bool) (p : Int) : List Char :=
  'e' :: if plusSign && 0 < p then '+' :: p.repr.toList else p.repr.toList

/-- The text of a spelling with or without plus signs. -/
def marked (plusSign : Bool) (n : Spelling) : List Char :=
  n.whole ++ (n.fraction.elim [] ('.' :: ·) ++ n.power.elim [] (powerText plusSign))

theorem marked_false (n : Spelling) : n.marked false = n.text := by
  cases power : n.power <;> simp [marked, text, powerText, power]

/-- The decimal that is spelled. -/
def decimal (n : Spelling) : Decimal :=
  ⟨Nat.ofDigitChars 10 (n.whole ++ n.places) 0, n.power.getD 0 - n.places.length⟩

/-- There are digits before the point and after it, and there is a point or a power. -/
structure Proper (n : Spelling) : Prop where
  whole : n.whole ≠ [] ∧ ∀ c ∈ n.whole, c.isDigit = true
  fraction : ∀ digits ∈ n.fraction, digits ≠ [] ∧ ∀ c ∈ digits, c.isDigit = true
  inexact : n.fraction.isSome = true ∨ n.power.isSome = true

/-- No digit stands before the point or the power after a zero. -/
def Canonical (n : Spelling) : Prop := n.whole = ['0'] ∨ n.whole.head? ≠ some '0'

theorem decimal_eq {n : Spelling} {d : Decimal}
    (coefficient : Nat.ofDigitChars 10 (n.whole ++ n.places) 0 = d.coefficient)
    (exponent : n.power.getD 0 - n.places.length = d.exponent) : n.decimal = d := by
  cases d
  cases coefficient
  cases exponent
  rfl

end Spelling

/-- A point after trailing zeros makes no difference. -/
theorem nearestRank_shift (c : Nat) {k : Nat} (small : k ≤ 16) :
    nearestRank ⟨c * 10 ^ (k + 1), -1⟩ = nearestRank ⟨c, k⟩ := by
  by_cases zero : c = 0
  · simp [nearestRank, zero]
  · have shifted : Ordinary ⟨c * 10 ^ (k + 1), -1⟩ := by
      refine ⟨Nat.mul_ne_zero zero (Nat.ne_of_gt (Nat.pow_pos (by decide))), ?_, ?_⟩
      · show (-1 : Int) ≤ 400
        omega
      · show (-400 : Int) ≤ -1 + (c * 10 ^ (k + 1)).log2
        omega
    have plain : Ordinary ⟨c, k⟩ := by
      refine ⟨zero, ?_, ?_⟩
      · show (k : Int) ≤ 400
        omega
      · show (-400 : Int) ≤ k + c.log2
        omega
    have above : ((k : Nat) : Int).toNat = k := Int.toNat_natCast k
    have below : (-((k : Nat) : Int)).toNat = 0 := by omega
    rw [nearestRank_of_ordinary shifted, nearestRank_of_ordinary plain, fraction, fraction, above,
      below]
    generalize Nat.pow 2 1074 = unit
    have numerator : c * 10 ^ (k + 1) * 10 ^ 0 * unit = c * 10 ^ k * unit * 10 := by
      rw [Nat.pow_zero, Nat.mul_one, Nat.pow_succ, ← Nat.mul_assoc, Nat.mul_right_comm]
    have scaled := Binary64.nearestRank_scale (show 0 < 10 by decide) (c * 10 ^ k * unit) 1
    rw [← numerator] at scaled
    exact scaled

theorem digits_proper (n : Nat) :
    Nat.toDigits 10 n ≠ [] ∧ ∀ c ∈ Nat.toDigits 10 n, c.isDigit = true :=
  ⟨Nat.toDigits_ne_nil, fun _ => Nat.isDigit_of_mem_toDigits (by decide) (by decide)⟩

theorem ofDigitChars_zeros_append (zeros : Nat) (digits : List Char) :
    Nat.ofDigitChars 10 (List.replicate zeros '0' ++ digits) 0 = Nat.ofDigitChars 10 digits 0 := by
  rw [Nat.ofDigitChars_append, Nat.ofDigitChars_replicate_zero, Nat.mul_zero]

theorem ofDigitChars_append_zeros (digits : List Char) (zeros : Nat) :
    Nat.ofDigitChars 10 (digits ++ List.replicate zeros '0') 0 =
      Nat.ofDigitChars 10 digits 0 * 10 ^ zeros := by
  rw [Nat.ofDigitChars_append, Nat.ofDigitChars_replicate_zero, Nat.mul_comm]

theorem eq_nil_of_toDigits_eq_zero_cons (n : Nat) {t : List Char}
    (zero : Nat.toDigits 10 n = '0' :: t) : n = 0 ∧ t = [] := by
  induction n using Nat.strongRecOn generalizing t with
  | ind n ih =>
      by_cases single : n < 10
      · rw [Nat.toDigits_of_lt_base single] at zero
        obtain ⟨first, nothing⟩ := List.cons.inj zero
        refine ⟨?_, nothing.symm⟩
        interval_cases n <;> first | rfl | cases first
      · rw [Nat.toDigits_of_base_le (by decide) (Nat.not_lt.mp single)] at zero
        cases digits : Nat.toDigits 10 (n / 10) with
        | nil => exact absurd digits Nat.toDigits_ne_nil
        | cons c t' =>
            rw [digits, List.cons_append] at zero
            obtain ⟨rfl, _⟩ := List.cons.inj zero
            have small := (ih (n / 10) (by omega) digits).1
            omega

section Written

variable {d : Decimal} {w : List Char}
  (digits : w ≠ [] ∧ ∀ c ∈ w, c.isDigit = true) (value : Nat.ofDigitChars 10 w 0 = d.coefficient)
  (leading : w = ['0'] ∧ d.exponent = 0 ∨ w.head? ≠ some '0') (plusSign : Bool)
include digits value

theorem spelled_below {zeros : Nat}
    (scaled : Int.negSucc zeros = d.exponent + (w.length - 1 : Nat)) :
    ∃ n : Spelling, plain w (.negSucc zeros) = n.marked plusSign ∧ n.Proper ∧ n.Canonical ∧
      n.decimal.nearestRank = d.nearestRank := by
  have length := List.length_pos_iff.mpr digits.1
  refine ⟨⟨['0'], some (List.replicate zeros '0' ++ w), none⟩, ?_, ⟨?_, ?_, .inl rfl⟩, .inl rfl, ?_⟩
  · simp [plain, Spelling.marked]
  · simp
  · simpa [or_imp, forall_and] using ⟨fun _ => digits.1, digits.2⟩
  · have exponent : 0 - ((List.replicate zeros '0' ++ w).length : Int) = d.exponent := by
      rw [List.length_append, List.length_replicate]
      omega
    exact congrArg nearestRank
      (Spelling.decimal_eq ((ofDigitChars_zeros_append (zeros + 1) w).trans value) exponent)

theorem spelled_scientific :
    ∃ n : Spelling, scientific plusSign w (d.exponent + (w.length - 1 : Nat)) = n.marked plusSign ∧
      n.Proper ∧ n.Canonical ∧ n.decimal.nearestRank = d.nearestRank := by
  cases w with
  | nil => exact absurd rfl digits.1
  | cons c tail =>
      have first : ([c] : List Char) ≠ [] ∧ ∀ e ∈ [c], e.isDigit = true :=
        ⟨List.cons_ne_nil _ _, fun e member => digits.2 e (by simp [List.mem_singleton.mp member])⟩
      -- One digit is canonical, be it a zero or not.
      have canonical : [c] = ['0'] ∨ [c].head? ≠ some '0' := by
        by_cases zero : c = '0'
        · exact .inl (congrArg (fun c => [c]) zero)
        · exact .inr fun head => zero (Option.some.inj head)
      cases tail with
      | nil =>
          refine ⟨⟨[c], none, some d.exponent⟩, ?_, ⟨first, ?_, .inr rfl⟩, canonical, ?_⟩
          · simp [scientific, Spelling.marked, Spelling.powerText]
          · rintro _ ⟨⟩
          · exact congrArg nearestRank (Spelling.decimal_eq value (Int.sub_zero _))
      | cons c' tail =>
          refine ⟨⟨[c], some (c' :: tail), some (d.exponent + (c' :: tail).length)⟩, ?_,
            ⟨first, ?_, .inl rfl⟩, canonical, ?_⟩
          · simp [scientific, Spelling.marked, Spelling.powerText]
          · rintro _ ⟨⟩
            exact ⟨List.cons_ne_nil _ _, fun e member =>
              digits.2 e (List.mem_cons_of_mem c member)⟩
          · exact congrArg nearestRank (Spelling.decimal_eq value (Int.add_sub_cancel _ _))

include leading

theorem spelled_beyond {places : Nat} (small : places ≤ 16) (long : w.length ≤ places + 1)
    (scaled : (places : Int) = d.exponent + (w.length - 1 : Nat)) :
    ∃ n : Spelling, plain w places = n.marked plusSign ∧ n.Proper ∧ n.Canonical ∧
      n.decimal.nearestRank = d.nearestRank := by
  have length := List.length_pos_iff.mpr digits.1
  obtain ⟨k, exponent⟩ : ∃ k : Nat, d.exponent = k := ⟨places + 1 - w.length, by omega⟩
  have zeros : places + 1 - w.length = k := by omega
  refine ⟨⟨w ++ List.replicate k '0', some ['0'], none⟩, ?_, ⟨?_, ?_, .inl rfl⟩, ?_, ?_⟩
  · show plain w (.ofNat places) = _
    simp [plain, Spelling.marked, long, padded, zeros]
  · simpa [or_imp, forall_and, digits.1] using digits.2
  · simp
  · rcases leading with ⟨rfl, none_dropped⟩ | first
    · obtain rfl : k = 0 := by omega
      exact .inl rfl
    · refine .inr ?_
      rwa [List.head?_append_of_ne_nil _ digits.1]
  · have coefficient : Nat.ofDigitChars 10 (w ++ List.replicate k '0' ++ ['0']) 0 =
        d.coefficient * 10 ^ (k + 1) := by
      rw [List.append_assoc, ← List.replicate_succ', ofDigitChars_append_zeros, value]
    have spelled : Spelling.decimal ⟨w ++ List.replicate k '0', some ['0'], none⟩ =
        ⟨d.coefficient * 10 ^ (k + 1), -1⟩ := Spelling.decimal_eq coefficient rfl
    rw [spelled, nearestRank_shift _ (by omega), ← exponent]

theorem spelled_within {places : Nat} (short : ¬ w.length ≤ places + 1)
    (scaled : (places : Int) = d.exponent + (w.length - 1 : Nat)) :
    ∃ n : Spelling, plain w places = n.marked plusSign ∧ n.Proper ∧ n.Canonical ∧
      n.decimal.nearestRank = d.nearestRank := by
  refine ⟨⟨w.take (places + 1), some (w.drop (places + 1)), none⟩, ?_, ⟨?_, ?_, .inl rfl⟩, ?_, ?_⟩
  · show plain w (.ofNat places) = _
    simp [plain, Spelling.marked, short]
  · exact ⟨by simpa using digits.1, fun c member => digits.2 c (List.mem_of_mem_take member)⟩
  · rintro _ ⟨⟩
    exact ⟨by simpa using short, fun c member => digits.2 c (List.mem_of_mem_drop member)⟩
  · rcases leading with ⟨rfl, _⟩ | first
    · simp at short
    · refine .inr ?_
      rwa [List.head?_take, if_neg (Nat.succ_ne_zero places)]
  · have coefficient := value
    rw [← List.take_append_drop (places + 1) w] at coefficient
    have exponent : 0 - ((w.drop (places + 1)).length : Int) = d.exponent := by
      rw [List.length_drop]
      omega
    exact congrArg nearestRank (Spelling.decimal_eq coefficient exponent)

end Written

/-- **What a format writes spells a decimal that reads back as the one that was to be
written.** -/
theorem written_spelled {layout : Layout} (plain_limit : layout.plainLimit ≤ 17) {d : Decimal}
    (unscaled : d.coefficient = 0 → d.exponent = 0) :
    ∃ n : Spelling, written layout d = n.marked layout.plusSign ∧ n.Proper ∧ n.Canonical ∧
      n.decimal.nearestRank = d.nearestRank := by
  have digits := digits_proper d.coefficient
  have value : Nat.ofDigitChars 10 (Nat.toDigits 10 d.coefficient) 0 = d.coefficient :=
    Nat.ofDigitChars_ten_toDigits
  have leading : Nat.toDigits 10 d.coefficient = ['0'] ∧ d.exponent = 0 ∨
      (Nat.toDigits 10 d.coefficient).head? ≠ some '0' := by
    by_cases first : (Nat.toDigits 10 d.coefficient).head? = some '0'
    · obtain ⟨t, same⟩ := List.head?_eq_some_iff.mp first
      obtain ⟨zero, rfl⟩ := eq_nil_of_toDigits_eq_zero_cons _ same
      exact .inl ⟨same, unscaled zero⟩
    · exact .inr first
  simp only [written]
  split
  · next bounds =>
      generalize scaled : d.exponent + _ = scale at bounds
      cases scale with
      | negSucc zeros => exact spelled_below digits value layout.plusSign scaled.symm
      | ofNat places =>
          have small : (places : Int) < layout.plainLimit := bounds.2
          by_cases long : (Nat.toDigits 10 d.coefficient).length ≤ places + 1
          · exact spelled_beyond digits value leading _ (by omega) long scaled.symm
          · exact spelled_within digits value leading _ long scaled.symm
  · exact spelled_scientific digits value layout.plusSign

/-- Only the number zero has the coefficient zero, and then no power. -/
theorem shortest_exponent (tie : TieRule) {rank : Nat} (finite : rank < infinityRank)
    (zero : (shortest tie rank).coefficient = 0) : (shortest tie rank).exponent = 0 := by
  have nearest := shortest_nearestRank tie finite
  rw [nearestRank, if_pos zero] at nearest
  rw [shortest, if_pos nearest.symm]

end RowFilter.Decimal
