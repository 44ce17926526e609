import ComponentMigration.Text.Basic

/-!
Blank characters: the 25 code points with the Unicode property `White_Space`.

* **The class.** `isBlank`, and `isBlankText` for a text made of them only.
* **Trimming.** `trim` removes them at both ends.
-/

namespace ComponentMigration.Text

/-- A character with the Unicode property `White_Space`. -/
def isBlank (c : Char) : Bool :=
  let n := c.toNat
  (0x09 ≤ n && n ≤ 0x0D) || n == 0x20 || n == 0x85 || n == 0xA0 || n == 0x1680 ||
    (0x2000 ≤ n && n ≤ 0x200A) || n == 0x2028 || n == 0x2029 || n == 0x202F ||
    n == 0x205F || n == 0x3000

/-- A text without any character that is not blank. -/
def isBlankText (t : Text) : Bool := t.all isBlank

/-- The text without its leading blanks. -/
def trimStart (t : Text) : Text := t.dropWhile isBlank

/-- The text without its trailing blanks. -/
def trimEnd (t : Text) : Text := (t.reverse.dropWhile isBlank).reverse

/-- The text without the blanks at its two ends. -/
def trim (t : Text) : Text := trimEnd (trimStart t)

end ComponentMigration.Text
