import RowFilter.Proofs.Json.Grammar
import RowFilter.Proofs.Script.Literal

/-!
# Numbers and texts in JSON documents

What is written for a number or for a text is read back wherever a document may end.  An
integer has neither a point nor an exponent, and a floating-point number always has one of
them, so the two are never taken for each other.  The digits of a floating-point number are
read as the decimal that was written, and that decimal is nearest to the number
(`number_float`).

A character between quotes is written bare, by its letter or by its code, and each of the
three is read back (`character_escape`).
-/

set_option autoImplicit false

namespace RowFilter.Json.Grammar

open Reader
open Decimal (Spelling)

/-! ## Where a document ends -/

/-- Nothing follows, or a mark that does not belong to a number and is no white space. -/
def Closed (rest : List Char) : Prop := ∀ c ∈ rest.head?, c = ',' ∨ c = ']' ∨ c = '\x7d'

theorem closed_nil : Closed [] := fun _ head => by cases head

theorem closed_cons {c : Char} (closer : c = ',' ∨ c = ']' ∨ c = '\x7d') (t : List Char) :
    Closed (c :: t) := by
  rintro d ⟨⟩
  exact closer

theorem Closed.numberBoundary {rest : List Char} (closed : Closed rest) :
    Script.NumberBoundary rest := by
  intro c head
  rcases closed c head with rfl | rfl | rfl <;> exact ⟨rfl, by decide⟩

theorem spaces_of_head {s : List Char} (other : ∀ c ∈ s.head?, isSpace c = false) :
    spaces s = some ((), s) := by
  have nothing : run isSpace s = some ([], s) :=
    run_append (t := []) (fun _ member => absurd member List.not_mem_nil) other
  rw [spaces, bind_of_some nothing]
  rfl

theorem Closed.spaces {rest : List Char} (closed : Closed rest) :
    spaces rest = some ((), rest) := by
  apply spaces_of_head
  intro c head
  rcases closed c head with rfl | rfl | rfl <;> rfl

/-! ## Numbers -/

/-- The sign before the digits of a number. -/
def signText (negative : Bool) : List Char := if negative then ['-'] else []

theorem sign_append (negative : Bool) {w : List Char} (digit : ∀ c ∈ w.head?, c.isDigit = true) :
    optional (char '-') (signText negative ++ w) =
      some (if negative then some () else none, w) := by
  cases negative with
  | true => exact optional_of_some (by simp [signText])
  | false =>
      apply optional_of_none
      cases w with
      | nil => rfl
      | cons c t =>
          show char '-' (c :: t) = none
          rw [char_cons, if_neg]
          rintro rfl
          cases digit '-' rfl

theorem whole_append {w rest : List Char} (proper : w ≠ [] ∧ ∀ c ∈ w, c.isDigit = true)
    (canonical : w = ['0'] ∨ w.head? ≠ some '0') (ends : ∀ c ∈ rest.head?, c.isDigit = false) :
    whole (w ++ rest) = some (w, rest) := by
  rcases canonical with rfl | other
  · exact orElse_of_some (bind_of_some (char_self _ _))
  · have noZero : char '0' (w ++ rest) = none := by
      cases w with
      | nil => exact absurd rfl proper.1
      | cons c t =>
          rw [List.cons_append, char_cons, if_neg]
          exact fun same => other (congrArg some same)
    rw [whole, orElse_of_none (bind_of_none noZero), Script.digits_append proper ends]

theorem head_append {w rest : List Char} (proper : w ≠ [] ∧ ∀ c ∈ w, c.isDigit = true) :
    ∀ c ∈ (w ++ rest).head?, c.isDigit = true := by
  intro c head
  rw [List.head?_append_of_ne_nil _ proper.1] at head
  exact proper.2 c (List.mem_of_mem_head? head)

/-- **A decimal that has been spelled is read as the number nearest to it.** -/
theorem number_spelled {n : Spelling} (proper : n.Proper) (canonical : n.Canonical)
    (negative plusSign : Bool) {rest : List Char} (closed : Closed rest) :
    number (signText negative ++ (n.marked plusSign ++ rest)) =
      some (.float (Binary64.withSign negative n.decimal.nearestRank), rest) := by
  obtain ⟨digit, middle, second, third⟩ :=
    Script.readsTail proper plusSign closed.numberBoundary
  rw [Script.marked_append, number, bind_of_some (sign_append negative (head_append proper.whole)),
    bind_of_some (whole_append proper.whole canonical digit), bind_of_some second,
    bind_of_some third]
  obtain ⟨whole, fraction, power⟩ := n
  have signed : (if negative = true then some () else none : Option Unit).isSome = negative := by
    cases negative <;> rfl
  rw [signed]
  cases fraction with
  | some t => cases power <;> rfl
  | none =>
      cases power with
      | some p => rfl
      | none => exact absurd proper.inexact (by simp)

theorem canonical_toDigits (n : Nat) :
    Nat.toDigits 10 n = ['0'] ∨ (Nat.toDigits 10 n).head? ≠ some '0' := by
  by_cases first : (Nat.toDigits 10 n).head? = some '0'
  · obtain ⟨t, same⟩ := List.head?_eq_some_iff.mp first
    obtain ⟨_, rfl⟩ := Decimal.eq_nil_of_toDigits_eq_zero_cons n same
    exact .inl same
  · exact .inr first

/-- A number without a point and an exponent is read as an integer. -/
theorem number_digits (negative : Bool) (n : Nat) {rest : List Char} (closed : Closed rest) :
    number (signText negative ++ (Nat.toDigits 10 n ++ rest)) =
      some (.integer (if negative then -(n : Int) else n), rest) := by
  have proper := Decimal.digits_proper n
  have ends := closed.numberBoundary
  have noDigit := Script.isDigit_of_boundary ends.boundary
  have fraction : optional (do char '.'; Script.digits) rest = some (none, rest) :=
    @Script.fraction_append none _ (by simp) noDigit fun point => (ends '.' point).2 rfl
  have power : optional Script.exponent rest = some (none, rest) :=
    optional_of_none (Script.exponent_eq_none ends.boundary)
  rw [number, bind_of_some (sign_append negative (head_append proper)),
    bind_of_some (whole_append proper (canonical_toDigits n) noDigit), bind_of_some fraction,
    bind_of_some power, numberValue, Script.ofDigits_toDigits]
  cases negative <;> rfl

theorem number_integer (n : Int) {rest : List Char} (closed : Closed rest) :
    number (n.repr.toList ++ rest) = some (.integer n, rest) := by
  cases n with
  | ofNat n =>
      rw [Script.repr_ofNat]
      exact number_digits false n closed
  | negSucc n =>
      rw [Script.repr_negSucc]
      exact number_digits true (n + 1) closed

/-- **A finite floating-point number is read back, sign and all.** -/
theorem number_float {x : Float} (finite : x.isFinite = true) {rest : List Char}
    (closed : Closed rest) :
    number ((floatText x).toList ++ rest) = some (.float x, rest) := by
  have least := Binary64.rank_lt_infinityRank_of_isFinite finite
  obtain ⟨n, text, proper, canonical, nearest⟩ := @Decimal.written_spelled floatLayout (by decide)
    (Decimal.shortest floatLayout.tie (Binary64.rank x)) (Decimal.shortest_exponent _ least)
  have written : (floatText x).toList ++ rest =
      signText (Binary64.isNegative x) ++ (n.marked floatLayout.plusSign ++ rest) := by
    rw [floatText, if_pos finite, Decimal.Layout.finite, text]
    cases Binary64.isNegative x <;> simp [signText]
  rw [written, number_spelled proper canonical _ _ closed, nearest,
    Decimal.shortest_nearestRank _ least, Binary64.withSign_rank]

/-! ## Texts -/

theorem hexValue_digitChar : ∀ d < 16, hexValue (Nat.digitChar d) = some d := by decide

/-- A control character is read back from its code. -/
theorem coded_control {c : Char} (control : c.toNat < 0x20) (rest : List Char) :
    coded ('0' :: '0' :: (c.toNat / 16).digitChar :: (c.toNat % 16).digitChar :: rest) =
      some (c, rest) := by
  have digit {d : Nat} (small : d < 16) (t : List Char) :
      hexDigit (d.digitChar :: t) = some (d, t) := by
    rw [hexDigit, hexValue_digitChar d small]
    rfl
  have zero (t : List Char) : hexDigit ('0' :: t) = some (0, t) := rfl
  have read : code ('0' :: '0' :: (c.toNat / 16).digitChar :: (c.toNat % 16).digitChar :: rest) =
      some (c.toNat, rest) := by
    have whole : ((0 * 16 + 0) * 16 + c.toNat / 16) * 16 + c.toNat % 16 = c.toNat := by omega
    rw [code, bind_of_some (zero _), bind_of_some (zero _), bind_of_some (digit (by omega) _),
      bind_of_some (digit (by omega) _), whole]
    rfl
  have high : isHigh c.toNat = false := by simp [isHigh]; omega
  have low : isLow c.toNat = false := by simp [isLow]; omega
  rw [coded, bind_of_some read, high, low, if_neg Bool.false_ne_true, if_neg Bool.false_ne_true,
    Char.ofNat_toNat]
  rfl

theorem character_lettered {c read : Char} (letter : letters.lookup c = some read)
    (rest : List Char) : character ('\\' :: c :: rest) = some (read, rest) := by
  have found : lettered (c :: rest) = some (read, rest) := by
    rw [lettered, letter]
    rfl
  rw [character, orElse_of_none (by rfl), bind_of_some (char_self _ _), orElse_of_some found]

/-- **A character is read back as it has been written between quotes.** -/
theorem character_escape (c : Char) (rest : List Char) :
    character (escape c ++ rest) = some (c, rest) := by
  unfold escape
  split_ifs with quote backslash backspace tab feed page carriage control
  · subst quote; exact character_lettered rfl rest
  · subst backslash; exact character_lettered rfl rest
  · subst backspace; exact character_lettered rfl rest
  · subst tab; exact character_lettered rfl rest
  · subst feed; exact character_lettered rfl rest
  · subst page; exact character_lettered rfl rest
  · subst carriage; exact character_lettered rfl rest
  · have noLetter (t : List Char) : lettered ('u' :: t) = none := rfl
    simp only [List.cons_append, List.nil_append]
    rw [character, orElse_of_none (by rfl), bind_of_some (char_self _ _),
      orElse_of_none (noLetter _), bind_of_some (char_self _ _), coded_control control]
  · have bare : isBare c = true := by simp [isBare, quote, backslash]; omega
    apply orElse_of_some
    rw [List.singleton_append, satisfying_cons, if_pos bare]

theorem toList_quoted (s : String) (rest : List Char) :
    (quoted s).toList ++ rest = '"' :: (s.toList.flatMap escape ++ '"' :: rest) := by
  simp [quoted]

/-- **A text between quotes is read back.** -/
theorem quotation_quoted (s : String) (rest : List Char) :
    quotation ((quoted s).toList ++ rest) = some (s, rest) := by
  have characters : many character (s.toList.flatMap escape ++ '"' :: rest) =
      some (s.toList, '"' :: rest) := by
    have written (c : Char) : escape c ≠ [] := by
      intro nothing
      have read := character_escape c []
      rw [nothing] at read
      cases read
    have read := @repeated_flatMap _ _ character escape id (fun _ => True) ('"' :: rest) rfl
      trivial (fun _ _ => trivial) s.toList (fun c _ => written c)
      fun c _ t _ => character_escape c t
    rw [List.map_id] at read
    exact congrArg some read
  rw [toList_quoted, quotation, bind_of_some (char_self _ _), bind_of_some characters,
    bind_of_some (char_self '"' rest), String.ofList_toList]
  rfl

end RowFilter.Json.Grammar
