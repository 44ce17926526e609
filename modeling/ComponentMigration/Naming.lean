import ComponentMigration.Text.UpperCase

/-!
Names derived from names.

* **Hyphens.** `camelize` drops each hyphen that stands before a word character
  and upper-cases that character; nothing else changes.
* **Setters and events.** `setterName` and `eventPropName` build the name of a
  state setter and of an event prop.
* **Identifiers.** `isIdentifier` is the ASCII identifier rule that a generated
  name has to meet.
-/

namespace ComponentMigration.Naming

/-- The text with every hyphen before a word character dropped and that
character upper-cased. -/
def camelize : Text → Text
  | [] => []
  | [c] => [c]
  | c :: d :: t =>
      if c = '-' ∧ Text.isWordChar d then Text.upperCase d ++ camelize t
      else c :: camelize (d :: t)

/-- The text with its first character upper-cased. -/
def capitalize : Text → Text
  | [] => []
  | c :: t => Text.upperCase c ++ t

/-- The setter of a state variable: `editing` has `setEditing`. -/
def setterName (name : Text) : Text := "set" ++ capitalize name

/-- The prop that listens to an event: `click` has `onClick`. -/
def eventPropName (event : Text) : Text := camelize ("on-" ++ event)

/-- A name made of ASCII letters, digits, `_` and `$`, no digit first. -/
def isIdentifier : Text → Bool
  | [] => false
  | c :: t =>
      (Text.isLetter c || c == '_' || c == '$') &&
        t.all fun d => Text.isLetter d || Text.isDigit d || d == '_' || d == '$'

end ComponentMigration.Naming
