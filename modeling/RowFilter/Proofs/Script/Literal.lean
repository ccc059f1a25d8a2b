import RowFilter.Proofs.Decimal
import RowFilter.Proofs.Script.Name

/-!
# Literals as texts

The text of a value is read back as the value wherever it is followed by no character
that could continue a name and, after a number, by no point (`literal_append`,
`number_append`).  This holds of the values that a literal can have: no integer is below
zero, and no floating-point number has a sign or is NaN (`Value.isWritable`).  Infinity is
left out, because its text is a name.
-/

set_option autoImplicit false

namespace RowFilter
namespace Script

open Reader Lexeme Grammar

/-! ## Numbers -/

/-- A text that does not go on with a number. -/
def NumberBoundary (rest : List Char) : Prop := ∀ c ∈ rest.head?, isNameChar c = false ∧ c ≠ '.'

theorem NumberBoundary.boundary {rest : List Char} (ends : NumberBoundary rest) : Boundary rest :=
  fun c head => (ends c head).1

theorem isDigit_of_boundary {rest : List Char} (ends : Boundary rest) :
    ∀ c ∈ rest.head?, c.isDigit = false := fun c head => by
  cases digit : c.isDigit with
  | false => rfl
  | true => exact absurd (isNameChar_of_isDigit digit) (by simp [ends c head])

theorem digits_append {t rest : List Char} (proper : t ≠ [] ∧ ∀ c ∈ t, c.isDigit = true)
    (ends : ∀ c ∈ rest.head?, c.isDigit = false) : digits (t ++ rest) = some (t, rest) := by
  obtain ⟨nonempty, all⟩ := proper
  cases t with
  | nil => exact absurd rfl nonempty
  | cons c t =>
      obtain ⟨first, others⟩ := List.forall_mem_cons.mp all
      have taken : satisfying Char.isDigit (c :: (t ++ rest)) = some (c, t ++ rest) := by
        rw [satisfying_cons, if_pos first]
      rw [List.cons_append, digits, run1, bind_of_some taken, bind_of_some (run_append others ends)]
      rfl

theorem ofDigits_toDigits (n : Nat) : ofDigits (Nat.toDigits 10 n) = n :=
  Nat.ofDigitChars_ten_toDigits

theorem repr_ofNat (n : Nat) : (Int.ofNat n).repr.toList = Nat.toDigits 10 n :=
  Nat.toList_repr

theorem repr_negSucc (n : Nat) :
    (Int.negSucc n).repr.toList = '-' :: Nat.toDigits 10 (n + 1) := by
  rw [Int.repr_eq_if, if_neg (by omega), String.toList_append, Int.neg_negSucc,
    Int.toNat_natCast, Nat.toList_repr]
  rfl

/-- No sign is read where digits begin. -/
theorem sign_digits_eq_none (n : Nat) (rest : List Char) :
    satisfying (fun c => c == '+' || c == '-') (Nat.toDigits 10 n ++ rest) = none := by
  obtain ⟨nonempty, digits⟩ := Decimal.digits_proper n
  cases first : Nat.toDigits 10 n with
  | nil => exact absurd first nonempty
  | cons c t =>
      have digit : c.isDigit = true := digits c (by simp [first])
      rw [List.cons_append, satisfying_cons, if_neg]
      intro sign
      simp only [Bool.or_eq_true, beq_iff_eq] at sign
      rcases sign with rfl | rfl <;> cases digit

theorem exponent_append (plusSign : Bool) (p : Int) {rest : List Char} (ends : Boundary rest) :
    exponent (Decimal.Spelling.powerText plusSign p ++ rest) = some (p, rest) := by
  have mark (s : List Char) : satisfying (fun c => c == 'e' || c == 'E') ('e' :: s) =
      some ('e', s) := rfl
  have signed {c : Char} (sign : (c == '+' || c == '-') = true) (s : List Char) :
      optional (satisfying fun c => c == '+' || c == '-') (c :: s) = some (some c, s) := by
    apply optional_of_some
    rw [satisfying_cons, if_pos sign]
  have size (n : Nat) : digits (Nat.toDigits 10 n ++ rest) = some (Nat.toDigits 10 n, rest) :=
    digits_append (Decimal.digits_proper n) (isDigit_of_boundary ends)
  rw [exponent, Decimal.Spelling.powerText, List.cons_append, bind_of_some (mark _)]
  cases p with
  | ofNat n =>
      rw [repr_ofNat]
      split
      · rw [List.cons_append, bind_of_some (signed rfl _), bind_of_some (size n)]
        simp [ofDigits_toDigits]
      · rw [bind_of_some (optional_of_none (sign_digits_eq_none n rest)), bind_of_some (size n)]
        simp [ofDigits_toDigits]
  | negSucc n =>
      have unmarked : (plusSign && decide (0 < Int.negSucc n)) = false := by simp
      rw [unmarked, if_neg Bool.false_ne_true, repr_negSucc, List.cons_append,
        bind_of_some (signed rfl _), bind_of_some (size (n + 1))]
      simp [ofDigits_toDigits, Int.negSucc_eq]

theorem exponent_eq_none {rest : List Char} (ends : Boundary rest) : exponent rest = none := by
  apply bind_of_none
  cases rest with
  | nil => rfl
  | cons c s =>
      rw [satisfying_cons, if_neg]
      intro mark
      have continues : isNameChar c = true := by
        simp only [Bool.or_eq_true, beq_iff_eq] at mark
        rcases mark with rfl | rfl <;> rfl
      rw [ends c rfl] at continues
      cases continues

/-- The power of ten in a spelling. -/
theorem power_append (plusSign : Bool) (power : Option Int) {rest : List Char}
    (ends : Boundary rest) :
    optional exponent (power.elim [] (Decimal.Spelling.powerText plusSign) ++ rest) =
      some (power, rest) := by
  cases power with
  | none => exact optional_of_none (exponent_eq_none ends)
  | some p => exact optional_of_some (exponent_append plusSign p ends)

/-- The point and the digits after it in a spelling. -/
theorem fraction_append {fraction : Option (List Char)} {rest : List Char}
    (proper : ∀ digits ∈ fraction, digits ≠ [] ∧ ∀ c ∈ digits, c.isDigit = true)
    (digit : ∀ c ∈ rest.head?, c.isDigit = false) (point : rest.head? ≠ some '.') :
    optional (do char '.'; digits) (fraction.elim [] ('.' :: ·) ++ rest) =
      some (fraction, rest) := by
  cases fraction with
  | none =>
      refine optional_of_none (bind_of_none ?_)
      cases rest with
      | nil => rfl
      | cons c s =>
          rw [Option.elim_none, List.nil_append, char_cons, if_neg]
          exact fun same => point (congrArg some same)
  | some t =>
      apply optional_of_some
      exact (bind_of_some (char_self _ _)).trans (digits_append (proper t rfl) digit)

/-- What follows the digits before the point in a spelling. -/
structure ReadsTail (n : Decimal.Spelling) (tail rest : List Char) : Prop where
  digit : ∀ c ∈ tail.head?, c.isDigit = false
  reads : ∃ middle, optional (do char '.'; digits) tail = some (n.fraction, middle) ∧
    optional exponent middle = some (n.power, rest)

theorem readsTail {n : Decimal.Spelling} (proper : n.Proper) (plusSign : Bool) {rest : List Char}
    (ends : NumberBoundary rest) :
    ReadsTail n (n.fraction.elim [] ('.' :: ·) ++
      (n.power.elim [] (Decimal.Spelling.powerText plusSign) ++ rest)) rest := by
  obtain ⟨whole, fraction, power⟩ := n
  have third := power_append plusSign power ends.boundary
  generalize powered :
    power.elim [] (Decimal.Spelling.powerText plusSign) ++ rest = after at third ⊢
  have afterFraction : ∀ c ∈ after.head?, c.isDigit = false ∧ c ≠ '.' := by
    subst powered
    cases power with
    | none => exact fun c head => ⟨isDigit_of_boundary ends.boundary c head, (ends c head).2⟩
    | some p => simp [Decimal.Spelling.powerText]
  have second := fraction_append proper.fraction (fun c head => (afterFraction c head).1)
    fun point => (afterFraction '.' point).2 rfl
  refine ⟨?_, after, second, third⟩
  cases fraction with
  | none => exact fun c head => (afterFraction c head).1
  | some t => simp

theorem marked_append (n : Decimal.Spelling) (plusSign : Bool) (rest : List Char) :
    n.marked plusSign ++ rest = n.whole ++ (n.fraction.elim [] ('.' :: ·) ++
      (n.power.elim [] (Decimal.Spelling.powerText plusSign) ++ rest)) := by
  rw [Decimal.Spelling.marked, List.append_assoc, List.append_assoc]

/-- **What has been spelled is read back.** -/
theorem number_spelled {n : Decimal.Spelling} (proper : n.Proper) {rest : List Char}
    (ends : NumberBoundary rest) :
    number (n.text ++ rest) = some (.float (Decimal.nearest n.decimal), rest) := by
  obtain ⟨digit, middle, second, third⟩ := readsTail proper false ends
  have first := digits_append proper.whole digit
  rw [← n.marked_false, marked_append, number, bind_of_some first, bind_of_some second,
    bind_of_some third]
  obtain ⟨whole, fraction, power⟩ := n
  cases fraction with
  | some t => cases power <;> rfl
  | none =>
      cases power with
      | some p => rfl
      | none => exact absurd proper.inexact (by simp)

/-! ## Values -/

end Script

/-- A value that a literal can have: an integer is not below zero, and a floating-point
number has no sign and is not NaN. -/
def Value.isWritable : Value → Bool
  | .integer n => 0 ≤ n
  | .float x => !x.isNaN && !Binary64.isNegative x
  | _ => true

theorem Value.isWritable_float {x : Float} (number : x.isNaN = false)
    (positive : Binary64.isNegative x = false) : (Value.float x).isWritable = true := by
  rw [Value.isWritable, number, positive]
  rfl

/-- A number of either kind. -/
def Value.isNumeric : Value → Bool
  | .integer _ | .float _ => true
  | _ => false

/-- A floating-point number beyond all finite ones. -/
def Value.isInfinite : Value → Bool
  | .float x => x.isInf
  | _ => false

namespace Script

open Reader Lexeme Grammar

theorem integer_append {n : Int64} (positive : 0 ≤ n) {rest : List Char}
    (ends : NumberBoundary rest) :
    number (n.toInt.repr.toList ++ rest) = some (.integer n, rest) := by
  have text : n.toInt.repr.toList = Nat.toDigits 10 n.toNatClampNeg := by
    rw [Int64.toInt_eq_toNatClampNeg positive]
    exact Nat.toList_repr
  have whole : digits (Nat.toDigits 10 n.toNatClampNeg ++ rest) =
      some (Nat.toDigits 10 n.toNatClampNeg, rest) :=
    digits_append (Decimal.digits_proper _) (isDigit_of_boundary ends.boundary)
  have fraction : optional (do char '.'; digits) rest = some (none, rest) :=
    @fraction_append none _ (by simp) (isDigit_of_boundary ends.boundary)
      fun point => (ends '.' point).2 rfl
  rw [text, number, bind_of_some whole, bind_of_some fraction,
    bind_of_some (optional_of_none (exponent_eq_none ends.boundary)), numberValue,
    ofDigits_toDigits]
  rw [if_pos n.toNatClampNeg_lt, Int64.ofNat_toNatClampNeg n positive]
  rfl

theorem float_append {x : Float} (number_ : x.isNaN = false) (finite : x.isInf = false)
    (positive : Binary64.isNegative x = false) {rest : List Char} (ends : NumberBoundary rest) :
    number ((floatText x).toList ++ rest) = some (.float x, rest) := by
  have least := Binary64.rank_lt_infinityRank number_ finite
  obtain ⟨n, text, proper, _, nearest⟩ := @Decimal.written_spelled floatLayout (by decide)
    (Decimal.shortest floatLayout.tie (Binary64.rank x)) (Decimal.shortest_exponent _ least)
  have same : Decimal.nearest n.decimal = x := by
    rw [Decimal.nearest, nearest, Decimal.shortest_nearestRank _ least,
      Binary64.ofRank_rank positive]
  have written : floatText x = String.ofList n.text := by
    have unmarked : n.marked floatLayout.plusSign = n.text := n.marked_false
    simp only [floatText, number_, finite, Bool.false_eq_true, if_false, Decimal.Layout.finite,
      positive, text, unmarked]
  rw [written, String.toList_ofList, number_spelled proper ends, same]

theorem encode_append (s : String) (rest : List Char) :
    (Quoted.encode s).toList ++ rest =
      '"' :: (s.toList.flatMap Quoted.escape ++ '"' :: rest) := by
  simp [Quoted.encode]

theorem quoted_escaped (s : String) (rest : List Char) :
    quoted ('"' :: (s.toList.flatMap Quoted.escape ++ '"' :: rest)) = some (.text s, rest) := by
  have opened : char '"' ('"' :: (s.toList.flatMap Quoted.escape ++ '"' :: rest)) =
      some ((), s.toList.flatMap Quoted.escape ++ '"' :: rest) := by simp
  refine orElse_of_some ((bind_of_some opened).trans ?_)
  rw [Quoted.decodeUpTo_escaped]
  exact congrArg (fun t => some (Value.text t, rest)) String.ofList_toList

theorem wordFor_append (w : String) (v : Value) {rest : List Char} (ends : Boundary rest) :
    wordFor w v (w.toList ++ rest) = some (v, rest) := by
  rw [wordFor, bind_of_some (keyword_append w ends)]
  rfl

theorem wordFor_append_eq_none {n w : String} {v : Value} {rest : List Char}
    (named : isName n = true) (ends : Boundary rest) (letters : w.toList.all isNameChar = true)
    (other : n ≠ w) : wordFor w v (n.toList ++ rest) = none :=
  bind_of_none (keyword_append_eq_none named ends letters other)

/-- A literal that begins with no letter is a number or a quoted text. -/
theorem literal_cons {c : Char} (s : List Char) (letter : isNameStart c = false) :
    literal (c :: s) = (number <|> quoted : Reader Value) (c :: s) := by
  have noWord {w : String} {v : Value} (word : w.toList.head?.any isNameStart = true) :
      wordFor w v (c :: s) = none := bind_of_none (keyword_of_letter s word letter)
  rw [literal, orElse_of_none (noWord rfl), orElse_of_none (noWord rfl),
    orElse_of_none (noWord rfl)]

theorem isNameStart_of_isDigit {c : Char} (digit : c.isDigit = true) : isNameStart c = false := by
  simp only [Char.isDigit, Bool.and_eq_true, decide_eq_true_eq, UInt32.le_iff_toNat_le,
    ge_iff_le] at digit
  have value : c.val.toNat ≤ 57 := digit.2
  have letter : c.isAlpha = false := by
    simp only [Char.isAlpha, Char.isUpper, Char.isLower, Bool.or_eq_false_iff,
      Bool.and_eq_false_imp, decide_eq_true_eq, decide_eq_false_iff_not,
      UInt32.le_iff_toNat_le, ge_iff_le]
    have upper : ('A' : Char).val.toNat = 65 := rfl
    have lower : ('a' : Char).val.toNat = 97 := rfl
    omega
  have underscore : c ≠ '_' := by rintro rfl; exact absurd value (by decide)
  have dollar : c ≠ '$' := by rintro rfl; exact absurd digit.1 (by decide)
  simp [isNameStart, letter, underscore, dollar]

theorem number_head {s rest : List Char} {v : Value} (read : number s = some (v, rest)) :
    ∃ c t, s = c :: t ∧ c.isDigit = true := by
  obtain ⟨_, _, taken, _⟩ := bind_eq_some read
  obtain ⟨c, t, first, _⟩ := bind_eq_some taken
  obtain ⟨digit, same⟩ := satisfying_eq_some first
  exact ⟨c, t, same, digit⟩

theorem literal_of_number {s rest : List Char} {v : Value} (read : number s = some (v, rest)) :
    literal s = some (v, rest) := by
  obtain ⟨c, t, rfl, digit⟩ := number_head read
  rw [literal_cons t (isNameStart_of_isDigit digit), orElse_of_some read]

/-- The text of a number is read back as a number, if no point follows. -/
theorem number_append {v : Value} (numeric : v.isNumeric = true) (writable : v.isWritable = true)
    (finite : v.isInfinite = false) {rest : List Char} (ends : NumberBoundary rest) :
    number ((literalText v).toList ++ rest) = some (v, rest) := by
  cases v with
  | integer n => exact integer_append (of_decide_eq_true writable) ends
  | float x =>
      simp only [Value.isWritable, Bool.and_eq_true, Bool.not_eq_true'] at writable
      exact float_append writable.1 finite writable.2 ends
  | _ => cases numeric

/-- The text of a number begins with a digit. -/
theorem number_text_head {v : Value} (numeric : v.isNumeric = true)
    (writable : v.isWritable = true) (finite : v.isInfinite = false) :
    ∃ c t, (literalText v).toList = c :: t ∧ c.isDigit = true := by
  have read := number_append numeric writable finite (fun c (head : c ∈ [].head?) => by cases head)
  rw [List.append_nil] at read
  exact number_head read

/-- The text of a value that is no number is a word or a quotation. -/
theorem literal_append {v : Value} (numeric : v.isNumeric = false) {rest : List Char}
    (ends : Boundary rest) : literal ((literalText v).toList ++ rest) = some (v, rest) := by
  cases v with
  | null =>
      have word : (literalText .null).toList ++ rest = "null".toList ++ rest := rfl
      rw [word, literal,
        orElse_of_none (wordFor_append_eq_none (by decide) ends (by decide) (by decide)),
        orElse_of_none (wordFor_append_eq_none (by decide) ends (by decide) (by decide)),
        orElse_of_some (wordFor_append "null" _ ends)]
  | boolean truth =>
      cases truth with
      | true => exact orElse_of_some (wordFor_append "true" _ ends)
      | false =>
          have word : (literalText (.boolean false)).toList ++ rest = "false".toList ++ rest := rfl
          rw [word, literal,
            orElse_of_none (wordFor_append_eq_none (by decide) ends (by decide) (by decide)),
            orElse_of_some (wordFor_append "false" _ ends)]
  | text s =>
      rw [literalText, encode_append, literal_cons _ rfl,
        orElse_of_none (number_cons_eq_none _ rfl), quoted_escaped]
  | _ => cases numeric

end Script
end RowFilter
