import RowFilter.Proofs.Text.Reader
import RowFilter.Sql.Condition

/-!
# The tokens of an SQL text

A reader of SQL sees names in brackets, single marks and words.  In a bracketed name a
doubled closing bracket stands for one, so a name may hold any characters at all.  A
word goes on up to the next blank, bracket or mark.

The tokens of the text of a condition are those of its parts in order
(`tokens_text`).  Comparators and connectives have words of SQL for tokens.  The only
assumption is that placeholders are named by words: columns may have any name.  The names
of a supply are words if what they begin with consists of characters of words
(`NameSupply.isWord_numbered`).
-/

set_option autoImplicit false

namespace RowFilter
namespace Sql

open Reader

/-! ## Reading tokens -/

inductive Token where
  | identifier (name : String)
  | mark (c : Char)
  | word (spelling : String)
deriving DecidableEq

/-- A character that is a token of its own. -/
def isMark (c : Char) : Bool :=
  c == '.' || c == ',' || c == '(' || c == ')' || c == '*'

/-- A character of a word. -/
def isWordChar (c : Char) : Bool :=
  c != ' ' && c != '[' && c != ']' && !isMark c

/-- The name up to its closing bracket, and the text after the bracket. -/
def nameUpTo : List Char → Option (List Char × List Char)
  | [] => none
  | ']' :: ']' :: rest => (nameUpTo rest).map fun (name, after) => (']' :: name, after)
  | ']' :: rest => some ([], rest)
  | c :: rest => (nameUpTo rest).map fun (name, after) => (c :: name, after)

/-- What follows the opening bracket of a name. -/
def bracketedName : Reader Token := fun s =>
  (nameUpTo s).map fun (name, rest) => (.identifier (String.ofList name), rest)

/-- A name in brackets. -/
def bracketed : Reader Token := do
  char '['
  bracketedName

/-- One token. -/
def token : Reader Token :=
  bracketed <|>
  (do let c ← satisfying isMark; return .mark c) <|>
  (do let spelling ← run1 isWordChar; return .word (String.ofList spelling))

/-- The blanks that a text begins with. -/
def blanks : Reader Unit := do
  let _ ← run (· == ' ')

/-- One token and the blanks after it. -/
def spacedToken : Reader Token := do
  let read ← token
  blanks
  return read

/-- The tokens of a text.  An identifier that is not closed, or a closing bracket
outside an identifier, makes a text unreadable. -/
def tokens (text : List Char) : Option (List Token) :=
  match (do blanks; many spacedToken) text with
  | some (found, []) => some found
  | _ => none

/-! ## One token at a time -/

/-- The closing bracket at least is taken. -/
theorem nameUpTo_length {s name rest : List Char} (read : nameUpTo s = some (name, rest)) :
    rest.length < s.length := by
  fun_induction nameUpTo s generalizing name with
  | case1 => cases read
  | case2 s ih =>
      obtain ⟨⟨name', rest'⟩, read', same⟩ := Option.map_eq_some_iff.mp read
      cases same
      have := ih read'
      simp only [List.length_cons]
      omega
  | case3 s =>
      cases read
      simp
  | case4 c s _ _ ih =>
      obtain ⟨⟨name', rest'⟩, read', same⟩ := Option.map_eq_some_iff.mp read
      cases same
      have := ih read'
      simp only [List.length_cons]
      omega

theorem token_progresses : Progresses token := by
  intro s t rest read
  rcases orElse_eq_some read with read | read
  · obtain ⟨_, middle, opened, closed⟩ := bind_eq_some read
    obtain ⟨⟨name, rest'⟩, named, same⟩ := Option.map_eq_some_iff.mp closed
    cases same
    rw [char_eq_some opened, List.length_cons]
    exact Nat.lt_succ_of_lt (nameUpTo_length named)
  · rcases orElse_eq_some read with read | read
    · obtain ⟨c, middle, taken, last⟩ := bind_eq_some read
      cases last
      rw [(satisfying_eq_some taken).2, List.length_cons]
      exact Nat.lt_succ_self _
    · obtain ⟨spelling, middle, spelled, last⟩ := bind_eq_some read
      cases last
      obtain ⟨first, others, taken, last⟩ := bind_eq_some spelled
      cases last
      rw [(satisfying_eq_some taken).2, List.length_cons]
      exact Nat.lt_succ_of_le (List.dropWhile_suffix _).length_le

theorem blanks_apply (s : List Char) : blanks s = some ((), s.dropWhile (· == ' ')) := rfl

theorem spacedToken_of_some {s : List Char} {t : Token} {rest : List Char}
    (read : token s = some (t, rest)) :
    spacedToken s = some (t, rest.dropWhile (· == ' ')) := by
  simp [spacedToken, read, blanks_apply]

theorem spacedToken_progresses : Progresses spacedToken := by
  intro s t rest read
  obtain ⟨t', middle, taken, last⟩ := bind_eq_some read
  cases last
  exact Nat.lt_of_le_of_lt (List.dropWhile_suffix _).length_le (token_progresses taken)

@[simp] theorem tokens_nil : tokens [] = some [] := by
  simp [tokens, blanks_apply, many_of_none (show spacedToken [] = none from rfl)]

@[simp] theorem tokens_blank (s : List Char) : tokens (' ' :: s) = tokens s := by
  simp [tokens, blanks_apply]

/-- The first token, and those of the text that follows it. -/
theorem tokens_of_token {s : List Char} {t : Token} {rest : List Char}
    (read : token s = some (t, rest)) : tokens s = (tokens rest).map (t :: ·) := by
  have begins : s.dropWhile (· == ' ') = s := by
    cases s with
    | nil => rfl
    | cons c s =>
        by_cases blank : c = ' '
        · subst blank
          simp [token, bracketed, run1, isMark, isWordChar] at read
        · simp [blank]
  simp only [tokens, bind_apply, blanks_apply, Option.bind_some, begins,
    many_of_some spacedToken_progresses (spacedToken_of_some read)]
  simp only [many]
  cases left : (repeated spacedToken (rest.dropWhile (· == ' '))) with
  | mk found remaining => cases remaining <;> simp

/-! ## Texts that spell tokens -/

/-- What may follow a word for it to end there. -/
def Ends (rest : List Char) : Prop := ∀ c ∈ rest.head?, isWordChar c = false ∧ c ≠ ']'

/-- In front of any text that ends a word, the characters are read as the tokens. -/
def Spells (s : List Char) (found : List Token) : Prop :=
  ∀ rest, Ends rest → tokens (s ++ rest) = (tokens rest).map (found ++ ·)

theorem ends_nil : Ends [] := by simp [Ends]

theorem ends_blank (s : List Char) : Ends (' ' :: s) := by
  simp [Ends, isWordChar]

/-- A text that spells tokens is read as these tokens when nothing follows it. -/
theorem Spells.tokens_eq {s : List Char} {found : List Token} (spells : Spells s found) :
    tokens s = some found := by
  have whole := spells [] ends_nil
  rwa [List.append_nil, tokens_nil, Option.map_some, List.append_nil] at whole

theorem spells_nil : Spells [] [] := by
  intro rest _
  simp

/-- A blank ends a word, so two texts with a blank between them spell the tokens of both. -/
theorem Spells.blank {s t : List Char} {found more : List Token} (first : Spells s found)
    (second : Spells t more) : Spells (s ++ ' ' :: t) (found ++ more) := by
  intro rest ends
  rw [List.append_assoc, List.cons_append, first _ (ends_blank _), tokens_blank, second _ ends]
  cases tokens rest <;> simp

theorem tokens_mark {c : Char} (mark : isMark c = true) (s : List Char) :
    tokens (c :: s) = (tokens s).map (.mark c :: ·) := by
  have noBracket : c ≠ '[' := by
    rintro rfl
    simp [isMark] at mark
  exact tokens_of_token (by simp [token, bracketed, noBracket, mark])

theorem ends_mark {c : Char} (mark : isMark c = true) (s : List Char) : Ends (c :: s) := by
  intro d head
  obtain rfl := Option.mem_some_iff.mp head
  refine ⟨by simp [isWordChar, mark], ?_⟩
  rintro rfl
  simp [isMark] at mark

/-- A mark ends a word too, and is a token of its own. -/
theorem Spells.mark {s t : List Char} {found more : List Token} {c : Char}
    (first : Spells s found) (mark : isMark c = true) (second : Spells t more) :
    Spells (s ++ c :: t) (found ++ .mark c :: more) := by
  intro rest ends
  rw [List.append_assoc, List.cons_append, first _ (ends_mark mark _), tokens_mark mark,
    second _ ends]
  cases tokens rest <;> simp

/-- A text of the characters that a word may consist of. -/
def IsWord (w : String) : Prop := w ≠ "" ∧ w.toList.all isWordChar = true

instance (w : String) : Decidable (IsWord w) := inferInstanceAs (Decidable (_ ∧ _))

/-- A word is read as one token, up to what ends it. -/
theorem IsWord.spells {w : String} (isWord : IsWord w) : Spells w.toList [.word w] := by
  intro rest ends
  obtain ⟨nonempty, all⟩ := isWord
  rw [List.all_eq_true] at all
  have notNil : w.toList ≠ [] := fun nil => nonempty (String.toList_eq_nil_iff.mp nil)
  obtain ⟨c, others, same⟩ := List.exists_cons_of_ne_nil notNil
  have first : isWordChar c = true := all c (by rw [same]; exact List.mem_cons_self)
  have noBracket : c ≠ '[' := by
    rintro rfl
    simp [isWordChar] at first
  have noMark : isMark c = false := by
    simp only [isWordChar, Bool.and_eq_true, Bool.not_eq_true'] at first
    exact first.2
  have remaining : run isWordChar (others ++ rest) = some (others, rest) :=
    run_append (fun d member => all d (by rw [same]; exact List.mem_cons_of_mem _ member))
      fun d head => (ends d head).1
  have spelling : String.ofList (c :: others) = w := by rw [← same, String.ofList_toList]
  have read : token (w.toList ++ rest) = some (.word w, rest) := by
    rw [same, List.cons_append]
    simp only [token, bracketed, run1, orElse_apply, bind_apply, char_cons, noBracket, if_false,
      Option.bind_none, Option.none_or, satisfying_cons, noMark, Bool.false_eq_true, first,
      if_true, Option.bind_some, remaining, pure_apply, spelling]
  exact tokens_of_token read

/-- A closing bracket that is not doubled ends a name, and a doubled one stands for itself. -/
theorem nameUpTo_doubled {rest : List Char} (ends : rest.head? ≠ some ']') :
    ∀ name : List Char,
      nameUpTo ((name.flatMap fun c => if c = ']' then [c, c] else [c]) ++ ']' :: rest) =
        some (name, rest)
  | [] => by
      cases rest with
      | nil => rfl
      | cons c rest =>
          have other : c ≠ ']' := fun same => ends (by rw [same]; rfl)
          simp [nameUpTo, other]
  | c :: name => by
      have others := nameUpTo_doubled ends name
      by_cases closing : c = ']'
      · subst closing
        simp [nameUpTo, others]
      · simp [closing, nameUpTo, others]

/-- A name in brackets is read as an identifier, whatever its characters. -/
theorem spells_quoteName (name : String) : Spells (quoteName name).toList [.identifier name] := by
  intro rest ends
  have read : token ((quoteName name).toList ++ rest) = some (.identifier name, rest) := by
    have open_ : rest.head? ≠ some ']' := fun head => (ends ']' head).2 rfl
    have named := nameUpTo_doubled open_ name.toList
    have opening : "[".toList = ['['] := rfl
    have closing : "]".toList = [']'] := rfl
    simp only [quoteName, String.toList_append, String.toList_ofList, List.append_assoc, opening,
      closing, List.cons_append, List.nil_append]
    apply orElse_of_some
    simp only [bracketed, bind_apply, char_cons, if_true, Option.bind_some, bracketedName, named,
      Option.map_some, String.ofList_toList]
  exact tokens_of_token read

/-! ## The tokens of a condition -/

def Field.tokens (f : Field) : List Token :=
  match f.qualifier with
  | none => [.identifier f.name]
  | some table => [.identifier table, .mark '.', .identifier f.name]

/-- The word of SQL for a comparator. -/
def Comparator.token : Comparator → Token
  | .equal => .word "="
  | .unequal => .word "!="
  | .greater => .word ">"
  | .greaterOrEqual => .word ">="
  | .less => .word "<"
  | .lessOrEqual => .word "<="

/-- The word of SQL for a connective. -/
def Connective.token : Connective → Token
  | .and => .word "AND"
  | .or => .word "OR"

mutual
/-- The tokens of a condition, part by part. -/
def Condition.tokens : Condition → List Token
  | .field f => f.tokens
  | .placeholder b => [.word b.name]
  | .comparator c => [c.token]
  | .connective c => [c.token]
  | .comparison left c right => left.tokens ++ c.token :: right.tokens
  | .compound parts => Condition.tokensOf parts

/-- The tokens of the parts of a list, in order. -/
def Condition.tokensOf : List Condition → List Token
  | [] => []
  | part :: parts => part.tokens ++ Condition.tokensOf parts
end

theorem Field.spells (f : Field) : Spells f.text.toList f.tokens := by
  rcases f with ⟨name, _ | table⟩
  · exact spells_quoteName name
  · have both := (spells_quoteName table).mark (c := '.') rfl (spells_quoteName name)
    simpa [Field.text, Field.tokens] using both

/-- What is written for a comparator is read as its word. -/
theorem Comparator.spells (c : Comparator) : Spells c.text.toList [c.token] := by
  cases c <;> exact IsWord.spells (by decide)

/-- What is written for a connective is read as its word. -/
theorem Connective.spells (c : Connective) : Spells c.text.toList [c.token] := by
  cases c <;> exact IsWord.spells (by decide)

mutual
/-- The text of a condition spells its tokens, part by part. -/
theorem Condition.spells :
    ∀ n : Condition, (∀ b ∈ n.bindings, IsWord b.name) → Spells n.text.toList n.tokens
  | .field f, _ => f.spells
  | .placeholder b, named => (named b List.mem_cons_self).spells
  | .comparator c, _ => c.spells
  | .connective c, _ => c.spells
  | .comparison left c right, named => by
      have first := left.spells fun b member => named b (List.mem_append_left _ member)
      have second := right.spells fun b member => named b (List.mem_append_right _ member)
      have both := (first.blank c.spells).blank second
      simpa [Condition.text, Condition.tokens] using both
  | .compound parts, named => by
      have whole := Condition.spells_all parts named
      simpa [Condition.text, Condition.tokens, String.toList_intercalate] using whole

theorem Condition.spells_all :
    ∀ parts : List Condition, (∀ b ∈ Condition.bindingsOf parts, IsWord b.name) →
      Spells ([' '].intercalate ((Condition.texts parts).map String.toList))
        (Condition.tokensOf parts)
  | [], _ => spells_nil
  | [part], named => by
      have only := part.spells fun b member => named b (List.mem_append_left _ member)
      simpa [Condition.texts, Condition.tokensOf] using only
  | part :: next :: parts, named => by
      have first := part.spells fun b member => named b (List.mem_append_left _ member)
      have others := Condition.spells_all (next :: parts) fun b member =>
        named b (List.mem_append_right _ member)
      have whole := first.blank others
      simpa [Condition.texts, Condition.tokensOf, List.intercalate_cons_cons] using whole
end

/-- **The text of a condition is read as its tokens**, whatever the names of its columns. -/
theorem tokens_text {n : Condition} (named : ∀ b ∈ n.bindings, IsWord b.name) :
    tokens n.text.toList = some n.tokens :=
  (n.spells named).tokens_eq

end Sql

/-! ## The names of placeholders -/

open Sql

theorem isWordChar_of_isDigit {c : Char} (digit : c.isDigit = true) : isWordChar c = true := by
  simp only [isWordChar, isMark, Bool.and_eq_true, Bool.not_eq_true', Bool.or_eq_false_iff,
    beq_eq_false_iff_ne, bne_iff_ne]
  refine ⟨⟨⟨?_, ?_⟩, ?_⟩, ⟨⟨⟨?_, ?_⟩, ?_⟩, ?_⟩, ?_⟩ <;>
    exact fun same => absurd digit (by subst same; decide)

/-- A lead of word characters gives names that are words. -/
theorem NameSupply.isWord_numbered {lead : String}
    (clean : ∀ c ∈ lead.toList, isWordChar c = true) (n : Nat) : IsWord (numbered lead n) := by
  have mark : 'p' ∈ (numbered lead n).toList := by simp [numbered]
  refine ⟨fun empty => ?_, List.all_eq_true.mpr fun c member => ?_⟩
  · rw [empty] at mark
    cases mark
  · simp only [numbered, String.toList_append, List.mem_append, Nat.toList_repr] at member
    rcases member with (here | here) | here
    · exact clean c here
    · obtain rfl : c = 'p' := by simpa using here
      rfl
    · exact isWordChar_of_isDigit (Nat.isDigit_of_mem_toDigits (by decide) (by decide) here)

end RowFilter
