import RowFilter.Text.Quoted

/-!
# Laws of quoted texts

Reading a quoted text stops at its closing quote, so it does not depend on what comes
after (`decodeUpTo_append`).  Whatever has been written between double quotes is read
back as it was (`decodeUpTo_escaped`).
-/

set_option autoImplicit false

namespace RowFilter.Quoted

variable {quote : Char}

theorem decodeUpTo_cons {c : Char} (plain : c ≠ '\\') (s : List Char) :
    decodeUpTo quote (c :: s) =
      if c = quote then some ([], s)
      else if c = '\n' then none
      else (decodeUpTo quote s).map fun found => (c :: found.1, found.2) := by
  rw [decodeUpTo.eq_4]
  · exact fun same _ => plain same
  · exact fun _ _ same _ => plain same

/-- A proposition about the characters of a text is proved of its end, of an escaped
character and of any other. -/
theorem escaped_induction {motive : List Char → Prop} (nil : motive [])
    (dangling : motive ['\\']) (escaped : ∀ c s, motive s → motive ('\\' :: c :: s))
    (plain : ∀ c s, c ≠ '\\' → motive s → motive (c :: s)) : ∀ s, motive s
  | [] => nil
  | c :: s => by
      by_cases backslash : c = '\\'
      · subst backslash
        cases s with
        | nil => exact dangling
        | cons c s => exact escaped c s (escaped_induction nil dangling escaped plain s)
      · exact plain c s backslash (escaped_induction nil dangling escaped plain s)

/-- What comes after a quoted text is found after its first character. -/
theorem decodeUpTo_eq_some {s : List Char} : ∀ {read rest : List Char},
    decodeUpTo quote s = some (read, rest) → ∃ c t, s = c :: t ∧ rest <:+ t := by
  induction s using escaped_induction with
  | nil => exact fun decoded => by cases decoded
  | dangling => exact fun decoded => by cases decoded
  | escaped c s ih =>
      intro read rest decoded
      obtain ⟨⟨read', rest'⟩, decoded', same⟩ := Option.map_eq_some_iff.mp decoded
      cases same
      obtain ⟨d, t, rfl, suffix⟩ := ih decoded'
      exact ⟨_, _, rfl, suffix.trans ((List.suffix_cons d t).trans (List.suffix_cons c _))⟩
  | plain c s other ih =>
      intro read rest decoded
      rw [decodeUpTo_cons other] at decoded
      split at decoded
      · cases decoded
        exact ⟨_, _, rfl, List.suffix_refl _⟩
      · split at decoded
        · cases decoded
        · obtain ⟨⟨read', rest'⟩, decoded', same⟩ := Option.map_eq_some_iff.mp decoded
          cases same
          obtain ⟨d, t, rfl, suffix⟩ := ih decoded'
          exact ⟨_, _, rfl, suffix.trans (List.suffix_cons d t)⟩

theorem decodeUpTo_suffix {s read rest : List Char}
    (decoded : decodeUpTo quote s = some (read, rest)) : rest <:+ s := by
  obtain ⟨c, t, rfl, suffix⟩ := decodeUpTo_eq_some decoded
  exact suffix.trans (List.suffix_cons c t)

theorem decodeUpTo_length {s read rest : List Char}
    (decoded : decodeUpTo quote s = some (read, rest)) : rest.length < s.length := by
  obtain ⟨c, t, rfl, suffix⟩ := decodeUpTo_eq_some decoded
  exact Nat.lt_succ_of_le suffix.length_le

/-- What comes after a quoted text makes no difference to it. -/
theorem decodeUpTo_of_some {u v : List Char} (r : List Char) : ∀ {read : List Char},
    decodeUpTo quote u = some (read, v) → decodeUpTo quote (u ++ r) = some (read, v ++ r) := by
  induction u using escaped_induction with
  | nil => exact fun decoded => by cases decoded
  | dangling => exact fun decoded => by cases decoded
  | escaped c u ih =>
      intro read decoded
      obtain ⟨⟨read', v'⟩, decoded', same⟩ := Option.map_eq_some_iff.mp decoded
      cases same
      exact Option.map_eq_some_iff.mpr ⟨_, ih decoded', rfl⟩
  | plain c u other ih =>
      intro read decoded
      rw [decodeUpTo_cons other] at decoded
      rw [List.cons_append, decodeUpTo_cons other]
      split at decoded
      · next closes =>
          cases decoded
          rw [if_pos closes]
      · next closes =>
          split at decoded
          · cases decoded
          · next feed =>
              obtain ⟨⟨read', v'⟩, decoded', same⟩ := Option.map_eq_some_iff.mp decoded
              cases same
              rw [if_neg closes, if_neg feed, ih decoded']
              rfl

/-- A quoted text that ends before the rest of a text does not need the rest. -/
theorem decodeUpTo_of_append {u v r : List Char} : ∀ {read : List Char},
    decodeUpTo quote (u ++ r) = some (read, v ++ r) → decodeUpTo quote u = some (read, v) := by
  have tooLong {read s : List Char} (short : s.length ≤ r.length)
      (decoded : decodeUpTo quote s = some (read, v ++ r)) : False := by
    have shorter := decodeUpTo_length decoded
    rw [List.length_append] at shorter
    omega
  induction u using escaped_induction with
  | nil => exact fun decoded => (tooLong (Nat.le_refl _) decoded).elim
  | dangling =>
      intro read decoded
      cases r with
      | nil => cases decoded
      | cons c r =>
          obtain ⟨⟨read', rest⟩, decoded', same⟩ := Option.map_eq_some_iff.mp decoded
          cases same
          exact (tooLong (Nat.le_succ _) decoded').elim
  | escaped c u ih =>
      intro read decoded
      obtain ⟨⟨read', rest⟩, decoded', same⟩ := Option.map_eq_some_iff.mp decoded
      cases same
      exact Option.map_eq_some_iff.mpr ⟨_, ih decoded', rfl⟩
  | plain c u other ih =>
      intro read decoded
      rw [List.cons_append, decodeUpTo_cons other] at decoded
      rw [decodeUpTo_cons other]
      split at decoded
      · next closes =>
          simp only [Option.some.injEq, Prod.mk.injEq, List.append_cancel_right_eq] at decoded
          rw [if_pos closes, decoded.1, decoded.2]
      · next closes =>
          split at decoded
          · cases decoded
          · next feed =>
              obtain ⟨⟨read', rest⟩, decoded', same⟩ := Option.map_eq_some_iff.mp decoded
              cases same
              rw [if_neg closes, if_neg feed, ih decoded']
              rfl

/-- A character that is no quote does not complete a quoted text. -/
theorem decodeUpTo_append {c : Char} (other : c ≠ quote) (notEscape : c ≠ '\\') (s : List Char) :
    decodeUpTo quote (s ++ [c]) =
      (decodeUpTo quote s).map fun found => (found.1, found.2 ++ [c]) := by
  induction s using escaped_induction with
  | nil => simp [decodeUpTo_cons notEscape, other, decodeUpTo]
  | dangling => simp [decodeUpTo]
  | escaped d s ih => simp [decodeUpTo, ih, Function.comp_def]
  | plain d s plain ih =>
      rw [List.cons_append, decodeUpTo_cons plain, decodeUpTo_cons plain, ih]
      split
      · rfl
      · split
        · rfl
        · simp [Function.comp_def]

theorem decodeUpTo_escape (c : Char) (s : List Char) :
    decodeUpTo '"' (escape c ++ s) =
      (decodeUpTo '"' s).map fun found => (c :: found.1, found.2) := by
  fun_cases escape c
  case case7 quote backslash feed _ _ _ =>
    rw [List.singleton_append, decodeUpTo_cons backslash, if_neg quote, if_neg feed]
  all_goals rfl

/-- **What has been escaped is read back**, up to the quote that closes it. -/
theorem decodeUpTo_escaped (text rest : List Char) :
    decodeUpTo '"' (text.flatMap escape ++ '"' :: rest) = some (text, rest) := by
  induction text with
  | nil => rw [List.flatMap_nil, List.nil_append, decodeUpTo_cons (by decide), if_pos rfl]
  | cons c text ih =>
      rw [List.flatMap_cons, List.append_assoc, decodeUpTo_escape, ih]
      rfl

end RowFilter.Quoted
