import RowFilter.Text.Position
import Mathlib.Data.List.DropRight

/-!
# Places in a text, computed from the text before them

A place is described by three numbers that are counted along the text before it.  Each of
them is a number of its own that the text has: its bytes in UTF-8, its line feeds, and the
characters after the last of them.
-/

set_option autoImplicit false

namespace RowFilter.Position

@[simp] theorem after_nil : after [] = start := rfl

@[simp] theorem after_concat (text : List Char) (c : Char) :
    after (text ++ [c]) = (after text).advance c := by
  rw [after, after, List.foldl_append]
  rfl

@[simp] theorem advance_offset (here : Position) (c : Char) :
    (here.advance c).offset = here.offset + c.utf8Size := by
  unfold advance
  split <;> rfl

/-- The offset of a place is the size of the text before it. -/
theorem after_offset (text : List Char) :
    (after text).offset = (String.ofList text).utf8ByteSize := by
  induction text using List.reverseRecOn with
  | nil => rfl
  | append_singleton text c ih =>
      rw [after_concat, advance_offset, ih, String.ofList_append, String.utf8ByteSize_append,
        ← String.singleton_eq_ofList, String.utf8ByteSize_singleton]

/-- The line of a place is one more than the number of line feeds before it. -/
theorem after_line (text : List Char) : (after text).line = 1 + text.count '\n' := by
  induction text using List.reverseRecOn with
  | nil => rfl
  | append_singleton text c ih =>
      rw [after_concat, List.count_append, List.count_singleton, advance]
      split
      · next feed => simp [ih, feed, Nat.add_assoc]
      · next feed => simp [ih, feed]

/-- The column of a place is one more than the number of characters after the last line
feed before it, or after the beginning of the text. -/
theorem after_column (text : List Char) :
    (after text).column = 1 + (text.rtakeWhile (· != '\n')).length := by
  induction text using List.reverseRecOn with
  | nil => rfl
  | append_singleton text c ih =>
      rw [after_concat, List.rtakeWhile_concat, advance]
      split
      · next feed => simp [feed]
      · next feed => simp [ih, feed, Nat.add_assoc]

end RowFilter.Position
