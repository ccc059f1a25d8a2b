import RowFilter.Proofs.Json.Scalar
import RowFilter.Proofs.Script.Listing

/-!
# JSON documents read back

The compact text of a document is read back as the document, except that infinities and NaN,
which have no text of their own, are read back as null (`read_compact`).

Documents are nested, so the law is proved of a document inside another: it is read back
wherever it may end, with any bound that its text is shorter than.  A list in brackets or in
braces is read back if its elements are, whatever they are (`listed_append`).
-/

set_option autoImplicit false

namespace RowFilter.Json

/-! ## What is read back -/

mutual
/-- A document with its infinities and NaN replaced by null. -/
def finite : Json → Json
  | .null => .null
  | .boolean truth => .boolean truth
  | .integer n => .integer n
  | .float x => if x.isFinite then .float x else .null
  | .text s => .text s
  | .array items => .array (finiteItems items)
  | .object members => .object (finiteMembers members)

/-- The replacement in the items of an array. -/
def finiteItems : List Json → List Json
  | [] => []
  | item :: items => item.finite :: finiteItems items

/-- The replacement in the members of an object. -/
def finiteMembers : List (String × Json) → List (String × Json)
  | [] => []
  | (key, value) :: members => (key, value.finite) :: finiteMembers members
end

theorem finiteItems_eq_map (items : List Json) : finiteItems items = items.map finite := by
  induction items with
  | nil => rfl
  | cons item items ih => rw [finiteItems, ih, List.map_cons]

theorem finiteMembers_eq_map (members : List (String × Json)) :
    finiteMembers members = members.map fun m => (m.1, m.2.finite) := by
  induction members with
  | nil => rfl
  | cons member members ih => rw [finiteMembers, ih, List.map_cons]

theorem compactItems_eq_map (items : List Json) : compactItems items = items.map compact := by
  induction items with
  | nil => rfl
  | cons item items ih => rw [compactItems, ih, List.map_cons]

/-- The text of a member. -/
def memberText (m : String × Json) : String := quoted m.1 ++ ":" ++ m.2.compact

theorem compactMembers_eq_map (members : List (String × Json)) :
    compactMembers members = members.map memberText := by
  induction members with
  | nil => rfl
  | cons member members ih => rw [compactMembers, ih, List.map_cons, memberText]

theorem length_le_intercalate {text : String} {texts : List String} (member : text ∈ texts) :
    text.length ≤ (",".intercalate texts).length := by
  induction texts with
  | nil => cases member
  | cons first others ih =>
      cases others with
      | nil =>
          obtain rfl := List.mem_singleton.mp member
          rw [String.intercalate_singleton]
      | cons next others =>
          rw [String.intercalate_cons_cons, String.length_append, String.length_append]
          rcases List.mem_cons.mp member with rfl | later
          · omega
          · have shorter := ih later
            omega

namespace Grammar

open Reader

/-! ## Elements with commas between them -/

/-- A mark is read where no white space follows. -/
theorem mark_cons (c : Char) {s : List Char} (other : ∀ d ∈ s.head?, isSpace d = false) :
    mark c (c :: s) = some ((), s) := by
  rw [mark, spaced, bind_of_some (char_self _ _), bind_of_some (spaces_of_head other)]
  rfl

section Separated

variable {α β : Type} {element : Reader α} {text : β → String} {value : β → α} {close : Char}
  {xs : List β} {rest : List Char}

theorem spaced_of_some {s t : List Char} {a : α} (read : element s = some (a, t))
    (closed : Closed t) : spaced element s = some (a, t) := by
  rw [spaced, bind_of_some read, bind_of_some closed.spaces]
  rfl

/-- What has been read does not begin with white space. -/
theorem head_of_some (refused : ∀ c s, isSpace c = true → element (c :: s) = none)
    {s : List Char} {found : α × List Char} (read : element s = some found) :
    ∀ c ∈ s.head?, isSpace c = false := by
  intro c head
  obtain ⟨t, rfl⟩ := List.head?_eq_some_iff.mp head
  refine eq_false_of_ne_true fun space => ?_
  rw [refused c t space] at read
  cases read

/-- Elements with commas between them, and what comes after the last. -/
def listText (text : β → String) (xs : List β) (rest : List Char) : List Char :=
  (",".intercalate (xs.map text)).toList ++ rest

theorem listText_cons (x : β) (xs : List β) (rest : List Char) :
    listText text (x :: xs) rest =
      (text x).toList ++ ((xs.flatMap fun y => ',' :: (text y).toList) ++ rest) := by
  rw [listText, List.map_cons, Script.toList_intercalate_cons, List.flatMap_map,
    List.append_assoc]
  rfl

section Closing

variable (closer : close = ']' ∨ close = '\x7d')
  (refused : ∀ c s, isSpace c = true → element (c :: s) = none)
  (reads : ∀ x ∈ xs, ∀ t, Closed t → element ((text x).toList ++ t) = some (value x, t))
include closer refused reads

/-- The elements after the first, each with the comma before it. -/
theorem many_commas : many (do mark ','; spaced element : Reader α)
    ((xs.flatMap fun y => ',' :: (text y).toList) ++ close :: rest) =
      some (xs.map value, close :: rest) := by
  have closed : Closed (close :: rest) := closed_cons (by tauto) rest
  have last : (do mark ','; spaced element : Reader α) (close :: rest) = none := by
    refine bind_of_none (bind_of_none ?_)
    rw [char_cons, if_neg]
    rcases closer with rfl | rfl <;> decide
  have step : ∀ y ∈ xs, ∀ t, Closed t →
      (do mark ','; spaced element : Reader α) (',' :: (text y).toList ++ t) =
        some (value y, t) := by
    intro y member t follow
    have read := reads y member t follow
    rw [List.cons_append, bind_of_some (mark_cons ',' (head_of_some refused read)),
      spaced_of_some read follow]
  exact congrArg some (repeated_flatMap last closed (fun _ _ => closed_cons (.inl rfl) _)
    (fun _ _ => List.cons_ne_nil _ _) step)

/-- **Elements with commas between them are read back between their marks.** -/
theorem listed_append (opening : Char) (empty : ∀ s, element (close :: s) = none) :
    listed opening close element (opening :: listText text xs (close :: rest)) =
      some (xs.map value, rest) := by
  have closed : Closed (close :: rest) := closed_cons (by tauto) rest
  cases xs with
  | nil =>
      have head : ∀ c ∈ (close :: rest).head?, isSpace c = false := by
        rintro c ⟨⟩
        rcases closer with rfl | rfl <;> rfl
      have nothing : separated (spaced element) (mark ',') (close :: rest) =
          some ([], close :: rest) := orElse_of_none (bind_of_none (bind_of_none (empty rest)))
      show listed opening close element (opening :: close :: rest) = _
      rw [listed, bind_of_some (mark_cons opening head), bind_of_some nothing,
        bind_of_some (char_self _ _)]
      rfl
  | cons x xs =>
      obtain ⟨first, others⟩ := List.forall_mem_cons.mp reads
      have follow : Closed ((xs.flatMap fun y => ',' :: (text y).toList) ++ close :: rest) := by
        cases xs with
        | nil => exact closed
        | cons y ys => exact closed_cons (.inl rfl) _
      have read := first _ follow
      have elements : separated (spaced element) (mark ',')
          (listText text (x :: xs) (close :: rest)) =
            some ((x :: xs).map value, close :: rest) := by
        apply orElse_of_some
        rw [listText_cons, bind_of_some (spaced_of_some read follow),
          bind_of_some (many_commas closer refused others)]
        rfl
      have head : ∀ c ∈ (listText text (x :: xs) (close :: rest)).head?, isSpace c = false := by
        rw [listText_cons]
        exact head_of_some refused read
      rw [listed, bind_of_some (mark_cons opening head), bind_of_some elements,
        bind_of_some (char_self _ _)]
      rfl

end Closing

end Separated

/-! ## Kinds of documents -/

section Kinds

variable {document : Reader Json} {s rest : List Char}

theorem wordFor_append (w : String) (j : Json) (rest : List Char) :
    wordFor w j (w.toList ++ rest) = some (j, rest) := by
  rw [wordFor, bind_of_some (word_append w rest)]
  rfl

theorem documentOf_null (rest : List Char) :
    documentOf document ("null".toList ++ rest) = some (.null, rest) := by
  rw [documentOf, orElse_of_some (wordFor_append "null" .null rest)]

theorem documentOf_boolean (truth : Bool) (rest : List Char) :
    documentOf document ((boolean truth).compact.toList ++ rest) = some (.boolean truth, rest) := by
  cases truth with
  | true =>
      show documentOf document ("true".toList ++ rest) = _
      rw [documentOf, orElse_of_none (by rfl),
        orElse_of_some (wordFor_append "true" (.boolean true) rest)]
  | false =>
      show documentOf document ("false".toList ++ rest) = _
      rw [documentOf, orElse_of_none (by rfl), orElse_of_none (by rfl),
        orElse_of_some (wordFor_append "false" (.boolean false) rest)]

/-- A text that is read as a number begins with no word. -/
theorem documentOf_of_number {j : Json} (read : number s = some (j, rest)) :
    documentOf document s = some (j, rest) := by
  have noWord {w : String} {v : Json} (refused : ∀ t, number (w.toList ++ t) = none) :
      wordFor w v s = none := by
    apply bind_of_none
    cases spelled : word w s with
    | none => rfl
    | some found =>
        rw [word_eq_some_iff.mp spelled, refused] at read
        cases read
  rw [documentOf, orElse_of_none (noWord fun _ => rfl), orElse_of_none (noWord fun _ => rfl),
    orElse_of_none (noWord fun _ => rfl), orElse_of_some read]

theorem documentOf_quoted (text : String) (rest : List Char) :
    documentOf document ((quoted text).toList ++ rest) = some (.text text, rest) := by
  have read : (Json.text <$> quotation : Reader Json) ((quoted text).toList ++ rest) =
      some (.text text, rest) := by
    rw [map_apply, quotation_quoted]
    rfl
  rw [toList_quoted] at read ⊢
  rw [documentOf, orElse_of_none (by rfl), orElse_of_none (by rfl), orElse_of_none (by rfl),
    orElse_of_none (by rfl), orElse_of_some read]

theorem documentOf_bracket : documentOf document ('[' :: s) = array document ('[' :: s) := by
  have noObject : object document ('[' :: s) = none := rfl
  rw [documentOf, orElse_of_none (by rfl), orElse_of_none (by rfl), orElse_of_none (by rfl),
    orElse_of_none (by rfl), orElse_of_none (by rfl), orElse_apply, noObject, Option.or_none]

theorem documentOf_brace :
    documentOf document ('\x7b' :: s) = object document ('\x7b' :: s) := by
  rw [documentOf, orElse_of_none (by rfl), orElse_of_none (by rfl), orElse_of_none (by rfl),
    orElse_of_none (by rfl), orElse_of_none (by rfl), orElse_of_none (by rfl)]

theorem quotation_of_space {c : Char} (space : isSpace c = true) (s : List Char) :
    quotation (c :: s) = none := by
  simp only [isSpace, Bool.or_eq_true, beq_iff_eq] at space
  rcases space with ((rfl | rfl) | rfl) | rfl <;> rfl

theorem documentOf_of_space {c : Char} (space : isSpace c = true) (s : List Char) :
    documentOf document (c :: s) = none := by
  simp only [isSpace, Bool.or_eq_true, beq_iff_eq] at space
  rcases space with ((rfl | rfl) | rfl) | rfl <;> rfl

theorem within_of_space (n : Nat) {c : Char} (space : isSpace c = true) (s : List Char) :
    within n (c :: s) = none := by
  cases n with
  | zero => rfl
  | succ n => exact documentOf_of_space space s

theorem within_of_close (n : Nat) {c : Char} (closer : c = ']' ∨ c = '\x7d') (s : List Char) :
    within n (c :: s) = none := by
  cases n with
  | zero => rfl
  | succ n => rcases closer with rfl | rfl <;> rfl

end Kinds

/-! ## Documents inside documents -/

/-- The text of a document is read back within a bound, wherever it may end. -/
def ReadsWithin (n : Nat) (j : Json) : Prop :=
  ∀ rest, Closed rest → within n (j.compact.toList ++ rest) = some (j.finite, rest)

variable {n : Nat}

theorem readsWithin_array {items : List Json} (reads : ∀ item ∈ items, ReadsWithin n item) :
    ReadsWithin (n + 1) (.array items) := by
  intro rest _
  have text : (Json.array items).compact.toList ++ rest =
      '[' :: listText compact items (']' :: rest) := by
    simp [compact, compactItems_eq_map, listText]
  have read := @listed_append _ _ (within n) compact finite ']' items rest (.inl rfl)
    (fun _ s space => within_of_space n space s) reads '['
    (within_of_close n (.inl rfl))
  rw [text, within, documentOf_bracket, array, map_apply, read, finite, finiteItems_eq_map]
  rfl

theorem readsWithin_object {members : List (String × Json)}
    (reads : ∀ m ∈ members, ReadsWithin n m.2) : ReadsWithin (n + 1) (.object members) := by
  intro rest _
  have text : (Json.object members).compact.toList ++ rest =
      '\x7b' :: listText memberText members ('\x7d' :: rest) := by
    simp [compact, compactMembers_eq_map, listText]
  have element : ∀ m ∈ members, ∀ t, Closed t →
      member (within n) ((memberText m).toList ++ t) = some ((m.1, m.2.finite), t) := by
    intro m present t follow
    have value := reads m present t follow
    have parts : (memberText m).toList ++ t =
        (quoted m.1).toList ++ ':' :: (m.2.compact.toList ++ t) := by
      simp [memberText]
    have key : spaced quotation ((quoted m.1).toList ++ ':' :: (m.2.compact.toList ++ t)) =
        some (m.1, ':' :: (m.2.compact.toList ++ t)) := by
      rw [spaced, bind_of_some (quotation_quoted _ _), bind_of_some (spaces_of_head (by simp; rfl))]
      rfl
    have colon := mark_cons ':'
      (head_of_some (fun _ s space => within_of_space n space s) value)
    rw [parts, member, bind_of_some key, bind_of_some colon, bind_of_some value]
    rfl
  have read := @listed_append _ _ (member (within n)) memberText (fun m => (m.1, m.2.finite))
    '\x7d' members rest (.inr rfl)
    (fun _ s space => bind_of_none (bind_of_none (quotation_of_space space s))) element '\x7b'
    fun _ => rfl
  rw [text, within, documentOf_brace, object, map_apply, read, finite, finiteMembers_eq_map]
  rfl

mutual
/-- **Every document is read back within any bound that its text is shorter than.** -/
theorem readsWithin : ∀ (j : Json) (n : Nat), j.compact.length < n → ReadsWithin n j
  | _, 0 => fun short => absurd short (Nat.not_lt_zero _)
  | .null, n + 1 => fun _ rest _ => documentOf_null rest
  | .boolean truth, n + 1 => fun _ rest _ => documentOf_boolean truth rest
  | .integer m, n + 1 => fun _ _ closed => documentOf_of_number (number_integer m closed)
  | .float x, n + 1 => fun _ rest closed => by
      cases bounded : x.isFinite with
      | true =>
          rw [finite, if_pos bounded]
          exact documentOf_of_number (number_float bounded closed)
      | false =>
          have text : (Json.float x).compact = "null" := by
            rw [compact, floatText, bounded]
            rfl
          rw [finite, bounded, text]
          exact documentOf_null rest
  | .text s, n + 1 => fun _ rest _ => documentOf_quoted s rest
  | .array items, n + 1 => fun short => by
      refine readsWithin_array (readsWithin_items items fun item member => ?_)
      have inside := length_le_intercalate (List.mem_map_of_mem (f := compact) member)
      have opened : "[".length = 1 := rfl
      simp only [compact, compactItems_eq_map, String.length_append] at short
      omega
  | .object members, n + 1 => fun short => by
      refine readsWithin_object (readsWithin_members members fun m member => ?_)
      have inside := length_le_intercalate (List.mem_map_of_mem (f := memberText) member)
      simp only [memberText, String.length_append] at inside
      have opened : "\x7b".length = 1 := rfl
      simp only [compact, compactMembers_eq_map, String.length_append] at short
      omega

theorem readsWithin_items : ∀ (items : List Json) {n : Nat},
    (∀ item ∈ items, item.compact.length < n) → ∀ item ∈ items, ReadsWithin n item
  | [], _, _ => fun _ member => absurd member List.not_mem_nil
  | item :: items, _, short => by
      obtain ⟨first, others⟩ := List.forall_mem_cons.mp short
      exact List.forall_mem_cons.mpr ⟨readsWithin item _ first, readsWithin_items items others⟩

theorem readsWithin_members : ∀ (members : List (String × Json)) {n : Nat},
    (∀ m ∈ members, m.2.compact.length < n) → ∀ m ∈ members, ReadsWithin n m.2
  | [], _, _ => fun _ member => absurd member List.not_mem_nil
  | (key, value) :: members, _, short => by
      obtain ⟨first, others⟩ := List.forall_mem_cons.mp short
      exact List.forall_mem_cons.mpr
        ⟨readsWithin value _ first, readsWithin_members members others⟩
end

end Grammar

open Reader Grammar in
/-- **A document is read back from its compact text.** -/
theorem read_compact (j : Json) : read j.compact = some j.finite := by
  have whole : within (j.compact.toList.length + 1) j.compact.toList = some (j.finite, []) := by
    have read := readsWithin j _ (Nat.lt_succ_self _) [] closed_nil
    rwa [List.append_nil, ← String.length_toList] at read
  have head := head_of_some (fun _ s space => within_of_space _ space s) whole
  have inside : spaced (fun s => within (s.length + 1) s) j.compact.toList =
      some (j.finite, []) := spaced_of_some whole closed_nil
  rw [read, document, bind_of_some (spaces_of_head head), inside]
  rfl

end RowFilter.Json
