import ComponentMigration.Diagnostic
import ComponentMigration.Text.Blank

/-!
Cursors: how far a template has been read.

* **Moving.** A `Cursor` is the unread text with the location of its first
  character; `drop` moves it on, and its location with it.
* **Looking back.** `upTo` is the text between two cursors.
-/

namespace ComponentMigration.Markup

/-- The unread text and the location where it begins. -/
structure Cursor where
  rest : Text
  location : Location
  deriving DecidableEq, Repr

namespace Cursor

/-- The cursor in front of a text. -/
def ofText (t : Text) : Cursor := ⟨t, .first⟩

/-- The cursor behind the next `n` characters. -/
def drop (c : Cursor) (n : Nat) : Cursor :=
  ⟨c.rest.drop n, c.location.after (c.rest.take n)⟩

/-- The cursor behind the next characters that satisfy `p`. -/
def dropWhile (c : Cursor) (p : Char → Bool) : Cursor := c.drop (c.rest.takeWhile p).length

/-- The cursor behind the next blanks. -/
def dropBlanks (c : Cursor) : Cursor := c.dropWhile Text.isBlank

/-- The text between two cursors. -/
def upTo (start stop : Cursor) : Text := start.rest.take (start.rest.length - stop.rest.length)

/-- The number of characters that the context of a diagnostic shows. -/
def contextLength : Nat := 40

/-- A diagnostic about the unread text. -/
def diagnose (c : Cursor) (cause : Cause) : Diagnostic :=
  ⟨cause, [], c.location, some (c.rest.take contextLength), []⟩

theorem rest_drop (c : Cursor) (n : Nat) : (c.drop n).rest = c.rest.drop n := rfl

theorem length_rest_drop (c : Cursor) (n : Nat) :
    (c.drop n).rest.length = c.rest.length - n := by simp [drop]

theorem length_rest_dropWhile_le (c : Cursor) (p : Char → Bool) :
    (c.dropWhile p).rest.length ≤ c.rest.length := by simp [dropWhile, drop]

end Cursor

end ComponentMigration.Markup
