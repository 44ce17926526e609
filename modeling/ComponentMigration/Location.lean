import ComponentMigration.Text.Basic

/-!
Places in a text, as a reader counts them.

* **Counting.** A `Location` is a line and a column, both from 1. `next` steps
  over one character and `after` over a text: a line feed opens a line, any
  other character moves one column on.
* **Width.** Both numbers have 32 bits, and counting wraps around: behind the
  number `2 ^ 32 - 1` comes 0.
* **Offsets.** `ofOffset?` is the location of a byte offset. An offset past the
  end counts as the end; there is no location inside a character.
-/

namespace ComponentMigration

/-- A line and a column, of 32 bits each. -/
structure Location where
  line : UInt32
  column : UInt32
  deriving DecidableEq, Repr, Inhabited

/-- A line or a column, read as a number. -/
scoped instance coeToNat : Coe UInt32 Nat := ⟨UInt32.toNat⟩

/-- A number as a line or a column. -/
scoped instance coeOfNat : Coe Nat UInt32 := ⟨UInt32.ofNat⟩

namespace Location

/-- The location of the first character of a text. -/
def first : Location := ⟨1, 1⟩

/-- The location recorded where none is known. -/
def unknown : Location := ⟨0, 0⟩

/-- The location behind the character `c`, which stands at `l`. -/
def next (l : Location) (c : Char) : Location :=
  if c = '\n' then ⟨l.line + 1, 1⟩ else ⟨l.line, l.column + 1⟩

/-- The location behind a text that begins at `l`. -/
def after (l : Location) (t : Text) : Location := t.foldl next l

/-- The location of a byte offset of `source`. -/
def ofOffset? (source : Text) (offset : Nat) : Option Location :=
  (source.takeBytes? (min offset source.byteLength)).map first.after

end Location

end ComponentMigration
