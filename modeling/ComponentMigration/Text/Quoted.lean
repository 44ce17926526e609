import ComponentMigration.Text.Basic

/-!
Quoted text: the JSON form of a string.

* **Writing.** `quoted` stands the text between double quotes. The double quote
  and the backslash are escaped, control characters below `0x20` too, five of
  them by a letter and the rest by `\u00` and two hexadecimal digits; every other
  character is written as it is.
-/

namespace ComponentMigration.Text

/-- One character inside a quoted text. -/
def escaped (c : Char) : Text :=
  if c = '"' then ['\\', '"']
  else if c = '\\' then ['\\', '\\']
  else if c = '\x08' then ['\\', 'b']
  else if c = '\x0c' then ['\\', 'f']
  else if c = '\n' then ['\\', 'n']
  else if c = '\r' then ['\\', 'r']
  else if c = '\t' then ['\\', 't']
  else if c.toNat < 0x20 then
    ['\\', 'u', '0', '0', Nat.digitChar (c.toNat / 16), Nat.digitChar (c.toNat % 16)]
  else [c]

/-- The text between double quotes. -/
def quoted (t : Text) : Text := '"' :: (t.flatMap escaped ++ ['"'])

end ComponentMigration.Text
