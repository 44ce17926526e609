import ComponentMigration.Text.WordChar

/-!
Reading ASCII words without regard to case.

* **Folding.** `lowerLetter` lower-cases the ASCII letters alone. `foldCase` also
  folds the two characters beyond ASCII whose case forms include an ASCII letter:
  the long s and the Kelvin sign.
* **Words.** `dropFolded?` reads a lower-case word in any case, and `dropWord?`
  reads it where a word ends.
-/

namespace ComponentMigration.Text

/-- The lower-case form of an ASCII letter; any other character is its own. -/
def lowerLetter (c : Char) : Char := if 'A' ≤ c ∧ c ≤ 'Z' then Char.ofNat (c.toNat + 32) else c

/-- The ASCII character that a character equals up to case, if there is one. -/
def foldCase (c : Char) : Char :=
  if c = '\u017f' then 's' else if c = '\u212a' then 'k' else lowerLetter c

/-- The text behind a leading `word`, whatever the case. -/
def dropFolded? : Text → Text → Option Text
  | [], t => some t
  | _ :: _, [] => none
  | w :: ws, c :: t => if foldCase c = w then dropFolded? ws t else none

/-- The text behind a leading `word` that no word character follows. -/
def dropWord? (word t : Text) : Option Text :=
  (dropFolded? word t).filter fun rest => !rest.head?.any isWordChar

/-- A character of a word over letters, digits and hyphens, whatever the case. -/
def isHyphenWordChar (c : Char) : Bool :=
  isLetter (foldCase c) || isDigit c || c == '-'

end ComponentMigration.Text
